import Aaf.ExecutorSpec

/-!
# What a run keeps track of

Consequences of the case analysis that several results share: the variables of
the loop as functions of the prefix it has processed (`Bookkeeping`), the failure
branch in those terms, and the recorder's answers along a run.
-/

namespace Aaf

open GraphExecutor

/-! ## Draining the chain -/

namespace CompensationChain

variable {intent : IntentEnvelope}

/-- The error of a rollback names the step whose compensator failed. -/
theorem drain_error_eq {e : RuntimeError} :
    ∀ {l : List (NodeId × Node)} {prior : Outputs}, (drain intent prior l).1 = .error e →
      ∃ step reason, e = .compensationFailed step reason := by
  intro l
  induction l generalizing e with
  | nil => exact fun h => by cases h
  | cons q rest ih =>
    obtain ⟨step, comp⟩ := q
    intro prior h
    rw [drain] at h
    rcases hrun : comp.run intent prior with e' | o
    · simp only [hrun] at h
      cases h
      exact ⟨step.raw, e'.display, rfl⟩
    · simp only [hrun] at h
      rcases hrest : (drain intent (prior.insert step o) rest).1 with e' | out'
      · rw [hrest] at h
        cases h
        exact ih hrest
      · rw [hrest] at h
        cases h

end CompensationChain

/-- The rollback a failure behind the prefix `pre` causes. -/
def Graph.rollbackOf (g : Graph) (intent : IntentEnvelope) (pre : List NodeId) :
    Except RuntimeError (List NodeOutput) × List CompensatorRun :=
  CompensationChain.drain intent ∅ (pre.filterMap g.compensatorOf).reverse

/-- Events outside the loop, and the closing of the trace. -/
def Event.isFrame : Event → Bool
  | .policy .prePlan _ _ _ | .policy .preArtifact _ _ _ | .opened _ | .closed _ _ => true
  | _ => false

/-- A recorder operation succeeded; every other event is trivially fine. -/
def Event.recorderOk : Event → Prop
  | .opened r => r = .ok ()
  | .recorded _ r => r = .ok ()
  | .closed _ r => r = .ok ()
  | _ => True

/-- Every recorder operation of the log succeeded. -/
def RecorderOk (log : List Event) : Prop := ∀ ev ∈ log, ev.recorderOk

@[simp] theorem recorderOk_append {l l' : List Event} :
    RecorderOk (l ++ l') ↔ RecorderOk l ∧ RecorderOk l' := List.forall_mem_append

namespace GraphExecutor

section Bookkeeping

variable {ρ : Type} [TraceRecorder ρ] {exec : GraphExecutor ρ} {world : World} {g : Graph}
  {intent : IntentEnvelope} {pre : List NodeId} {s : RunState ρ} {id : NodeId} {node : Node}
  {output : NodeOutput}

/-- The loop's variables after the prefix `pre`. -/
structure Bookkeeping (g : Graph) (pre : List NodeId) (s : RunState ρ) : Prop where
  step : s.step = pre.length
  composedWrites : s.composedWrites = pre.countP g.isWrite
  stack : s.chain.stack = pre.filterMap g.compensatorOf
  targets : s.compensatorTargets = (pre.filterMap g.compensatorOf).map Prod.fst

theorem Reaches.bookkeeping (h : Reaches exec world g intent pre s) : Bookkeeping g pre s := by
  refine h.induction (I := Bookkeeping g) (fun _ => ⟨rfl, rfl, rfl, rfl⟩) ?_
  intro pre s id node output _ inv hcont
  have hw : g.isWrite id = node.isWriteClass := by
    rw [Graph.isWrite, hcont.found, Option.elim_some]
  have hfm : (pre ++ [id]).filterMap g.compensatorOf =
      pre.filterMap g.compensatorOf ++ (g.compensatorOf id).toList := by
    rw [List.filterMap_append]
    rcases hq : g.compensatorOf id with _ | q
    · simp [hq]
    · simp [hq]
  refine ⟨?_, ?_, ?_, ?_⟩
  · simp [nextState, inv.step]
  · rw [List.countP_append]
    simp only [nextState, inv.composedWrites, List.countP_singleton, hw]
    rcases node.isWriteClass with _ | _
    · rfl
    · rfl
  · rw [hfm, nextState, inv.stack]
  · rw [hfm, nextState, inv.targets, List.map_append]

/-- The failure branch when the compensators succeed. -/
theorem failStep_rolledBack (h : Reaches exec world g intent pre s) {out : List NodeOutput}
    (hroll : (g.rollbackOf intent pre).1 = .ok out) (block : List Event) (e : RuntimeError) :
    failStep intent (stopped s block) e =
      closeTrace intent .failed
        (stopped s (block ++ (g.rollbackOf intent pre).2.map .compensatorRun))
        (if pre.filterMap g.compensatorOf = [] then .error e
          else .ok (.rolledBack (pre.length + 1) e.display
            ((pre.filterMap g.compensatorOf).map Prod.fst))) := by
  have inv := h.bookkeeping
  rw [Graph.rollbackOf] at hroll ⊢
  rw [failStep, GraphExecutor.rollback, CompensationChain.isEmpty]
  simp only [stopped, inv.stack, inv.targets, inv.step]
  by_cases hnil : pre.filterMap g.compensatorOf = []
  · simp [hnil, CompensationChain.drain]
  · rw [if_neg (by simpa using hnil), if_neg hnil]
    simp only [CompensationChain.rollback, inv.stack, hroll, Except.map, List.isEmpty_map,
      List.append_assoc]
    rw [if_neg (by simpa using hnil)]

/-- The failure branch when a compensator fails. -/
theorem failStep_stuck (h : Reaches exec world g intent pre s) {e' : RuntimeError}
    (hroll : (g.rollbackOf intent pre).1 = .error e') (block : List Event) (e : RuntimeError) :
    failStep intent (stopped s block) e =
      ⟨stopped s (block ++ (g.rollbackOf intent pre).2.map .compensatorRun), .error e'⟩ := by
  have inv := h.bookkeeping
  rw [Graph.rollbackOf] at hroll ⊢
  rw [failStep, GraphExecutor.rollback, CompensationChain.isEmpty]
  simp only [stopped, inv.stack, inv.targets]
  by_cases hnil : pre.filterMap g.compensatorOf = []
  · rw [hnil] at hroll
    cases hroll
  · rw [if_neg (by simpa using hnil)]
    simp only [CompensationChain.rollback, inv.stack, hroll, Except.map, List.append_assoc]

end Bookkeeping

/-! ## Where a run gets to -/

/-- The run comes to the node `id` behind the prefix `pre` of its order, in state
`s`. -/
structure ComesTo {ρ : Type} [TraceRecorder ρ] (exec : GraphExecutor ρ) (world : World) (g : Graph)
    (intent : IntentEnvelope) (pre : List NodeId) (id : NodeId) (s : RunState ρ) (node : Node) :
    Prop where
  split : ∃ post, g.order = pre ++ id :: post
  reach : Reaches exec world g intent pre s
  found : g.nodes.lookup id = some node

/-! ## The log of an iteration -/

section Log

variable {ρ : Type} [TraceRecorder ρ] {exec : GraphExecutor ρ} {world : World} {g : Graph}
  {intent : IntentEnvelope} {pre : List NodeId} {s : RunState ρ} {id : NodeId} {node : Node}
  {output : NodeOutput} {ev : Event}

omit [TraceRecorder ρ] in
/-- What running a node logs: its shadow, or its leaves and its result. -/
theorem mem_runLog (h : ev ∈ exec.runLog intent id node s) :
    ((exec.shadow && node.isWriteClass) = true ∧ ev = .shadowed id (shadowOutput id node)) ∨
      ((exec.shadow && node.isWriteClass) = false ∧
        ((∃ l ∈ node.leaves, ev = .leafRun id s.outputs l) ∨
          ev = .nodeRun id s.outputs (node.run intent s.outputs))) := by
  rw [runLog] at h
  rcases hs : (exec.shadow && node.isWriteClass) with _ | _
  · rw [hs, if_neg Bool.false_ne_true, List.mem_append, List.mem_singleton, List.mem_map] at h
    refine Or.inr ⟨rfl, ?_⟩
    rcases h with ⟨l, hl, heq⟩ | heq
    · exact Or.inl ⟨l, hl, heq.symm⟩
    · exact Or.inr heq
  · rw [hs, if_pos rfl, List.mem_singleton] at h
    exact Or.inl ⟨rfl, h⟩

omit [TraceRecorder ρ] in
/-- The same, of an event with what is logged around it. -/
theorem runLog_split {b c : List Event} (h : exec.runLog intent id node s = b ++ ev :: c) :
    ((exec.shadow && node.isWriteClass) = true ∧ ev = .shadowed id (shadowOutput id node)) ∨
      ((exec.shadow && node.isWriteClass) = false ∧
        ((∃ l ∈ node.leaves, ev = .leafRun id s.outputs l) ∨
          ev = .nodeRun id s.outputs (node.run intent s.outputs))) :=
  mem_runLog (List.mem_iff_append.mpr ⟨b, c, h⟩)

/-- What an iteration that continues logs. -/
theorem mem_stepLog (h : ev ∈ exec.stepLog world intent id node output s) :
    ev = .policy .preStep (some id) (preContext intent node s) (exec.preDecision intent node s) ∨
      ev ∈ exec.runLog intent id node s ∨
      ev = .charged id (chargeOf world id output s).1 ∨
      ev = .policy .postStep (some id) (postContext world intent id node output s)
        (exec.postDecision world intent id node output s) ∨
      ev = .recorded (traceStepOf intent id node output (s.step + 1))
        (recordOf intent id node output s).1 := by
  simp only [stepLog, preLog, chargeLog, postLog, recordLog, List.mem_append,
    List.mem_singleton] at h
  tauto

/-- An iteration behind `pre` logs `ev` after the events `b` of its own; each
event comes with the verdicts that let it happen. -/
inductive StepEvent (exec : GraphExecutor ρ) (world : World) (g : Graph) (intent : IntentEnvelope)
    (pre : List NodeId) (s : RunState ρ) (id : NodeId) (node : Node) :
    List Event → Event → Prop where
  | pre : StepEvent exec world g intent pre s id node []
      (.policy .preStep (some id) (preContext intent node s) (exec.preDecision intent node s))
  | run {b c : List Event} {ev : Event}
    (hpre : (exec.preDecision intent node s).isAllowed = true)
    (hev : exec.runLog intent id node s = b ++ ev :: c) :
    StepEvent exec world g intent pre s id node (exec.preLog intent id node s ++ b) ev
  | compensate {b : List Event} {e : RuntimeError} {r : CompensatorRun}
    (hpre : (exec.preDecision intent node s).isAllowed = true)
    (hran : exec.outputOf intent id node s = .error e) (hr : r ∈ (g.rollbackOf intent pre).2) :
    StepEvent exec world g intent pre s id node b (.compensatorRun r)
  | charge {output : NodeOutput} (hpre : (exec.preDecision intent node s).isAllowed = true)
    (hran : exec.outputOf intent id node s = .ok output) :
    StepEvent exec world g intent pre s id node
      (exec.preLog intent id node s ++ exec.runLog intent id node s)
      (.charged id (chargeOf world id output s).1)
  | post {output : NodeOutput} (hpre : (exec.preDecision intent node s).isAllowed = true)
    (hran : exec.outputOf intent id node s = .ok output)
    (hcharged : (chargeOf world id output s).1 = .ok ()) :
    StepEvent exec world g intent pre s id node
      (exec.preLog intent id node s ++ exec.runLog intent id node s ++ chargeLog world id output s)
      (.policy .postStep (some id) (postContext world intent id node output s)
        (exec.postDecision world intent id node output s))
  | record {output : NodeOutput} (hpre : (exec.preDecision intent node s).isAllowed = true)
    (hran : exec.outputOf intent id node s = .ok output)
    (hcharged : (chargeOf world id output s).1 = .ok ())
    (hpost : (exec.postDecision world intent id node output s).isAllowed = true) :
    StepEvent exec world g intent pre s id node
      (exec.preLog intent id node s ++ exec.runLog intent id node s ++
        chargeLog world id output s ++ exec.postLog world intent id node output s)
      (.recorded (traceStepOf intent id node output (s.step + 1))
        (recordOf intent id node output s).1)

/-- Where an event of a run comes from: from outside the loop, or from an
iteration the run got to, with everything logged before that iteration in front. -/
def Origin (exec : GraphExecutor ρ) (world : World) (g : Graph) (intent : IntentEnvelope)
    (before : List Event) (ev : Event) : Prop :=
  ev.isFrame = true ∨ ∃ pre id s node b, ComesTo exec world g intent pre id s node ∧
    before = s.log ++ b ∧ StepEvent exec world g intent pre s id node b ev

section Step

variable (hto : ComesTo exec world g intent pre id s node)

include hto

theorem StepEvent.origin {b : List Event} (h : StepEvent exec world g intent pre s id node b ev) :
    Origin exec world g intent (s.log ++ b) ev :=
  Or.inr ⟨pre, id, s, node, b, hto, rfl, h⟩

/-! The log of an iteration, phase by phase. -/

theorem origin_pre (h : Loop.Justified (Origin exec world g intent) s.log) :
    Loop.Justified (Origin exec world g intent) (s.log ++ exec.preLog intent id node s) := by
  refine h.concat ?_
  have := StepEvent.pre.origin hto
  rwa [List.append_nil] at this

theorem origin_run (hpre : (exec.preDecision intent node s).isAllowed = true)
    (h : Loop.Justified (Origin exec world g intent) s.log) :
    Loop.Justified (Origin exec world g intent)
      (s.log ++ (exec.preLog intent id node s ++ exec.runLog intent id node s)) := by
  rw [← List.append_assoc]
  refine (origin_pre hto h).append fun b ev c heq => ?_
  rw [List.append_assoc]
  exact (StepEvent.run hpre heq).origin hto

theorem origin_compensate {e : RuntimeError}
    (hpre : (exec.preDecision intent node s).isAllowed = true)
    (hran : exec.outputOf intent id node s = .error e)
    (h : Loop.Justified (Origin exec world g intent) s.log) :
    Loop.Justified (Origin exec world g intent)
      (s.log ++ (exec.preLog intent id node s ++ exec.runLog intent id node s ++
        (g.rollbackOf intent pre).2.map .compensatorRun)) := by
  rw [← List.append_assoc]
  refine (origin_run hto hpre h).append fun b ev c heq => ?_
  have hmem : ev ∈ (g.rollbackOf intent pre).2.map .compensatorRun := by
    rw [heq]
    exact List.mem_append_right _ (List.mem_cons_self ..)
  obtain ⟨r, hr, rfl⟩ := List.mem_map.mp hmem
  rw [List.append_assoc]
  exact (StepEvent.compensate hpre hran hr).origin hto

theorem origin_charge (hpre : (exec.preDecision intent node s).isAllowed = true)
    (hran : exec.outputOf intent id node s = .ok output)
    (h : Loop.Justified (Origin exec world g intent) s.log) :
    Loop.Justified (Origin exec world g intent)
      (s.log ++ (exec.preLog intent id node s ++ exec.runLog intent id node s ++
        chargeLog world id output s)) := by
  rw [← List.append_assoc]
  refine (origin_run hto hpre h).concat ?_
  exact (StepEvent.charge hpre hran).origin hto

theorem origin_post (hpre : (exec.preDecision intent node s).isAllowed = true)
    (hran : exec.outputOf intent id node s = .ok output)
    (hcharged : (chargeOf world id output s).1 = .ok ())
    (h : Loop.Justified (Origin exec world g intent) s.log) :
    Loop.Justified (Origin exec world g intent)
      (s.log ++ (exec.preLog intent id node s ++ exec.runLog intent id node s ++
        chargeLog world id output s ++ exec.postLog world intent id node output s)) := by
  rw [← List.append_assoc]
  refine (origin_charge hto hpre hran h).concat ?_
  exact (StepEvent.post hpre hran hcharged).origin hto

theorem origin_record (hpre : (exec.preDecision intent node s).isAllowed = true)
    (hran : exec.outputOf intent id node s = .ok output)
    (hcharged : (chargeOf world id output s).1 = .ok ())
    (hpost : (exec.postDecision world intent id node output s).isAllowed = true)
    (h : Loop.Justified (Origin exec world g intent) s.log) :
    Loop.Justified (Origin exec world g intent)
      (s.log ++ exec.stepLog world intent id node output s) := by
  rw [stepLog, ← List.append_assoc]
  refine (origin_post hto hpre hran hcharged h).concat ?_
  exact (StepEvent.record hpre hran hcharged hpost).origin hto

end Step

/-- Closing the trace is an event of the frame. -/
theorem origin_close {status : TraceStatus} {result : RunResult}
    (h : Loop.Justified (Origin exec world g intent) s.log) :
    Loop.Justified (Origin exec world g intent) (closeTrace intent status s result).state.log := by
  rw [closeTrace_log]
  exact h.concat (Or.inl rfl)

theorem origin_opened : Loop.Justified (Origin exec world g intent) (exec.openedState intent).log :=
  (Loop.Justified.nil.concat (Or.inl rfl)).concat (Or.inl rfl)

/-- Every event logged on the way to a prefix of the order has an origin. -/
theorem Reaches.origin (h : Reaches exec world g intent pre s) :
    ∀ post, g.order = pre ++ post → Loop.Justified (Origin exec world g intent) s.log := by
  refine h.induction (I := fun pre s => ∀ post, g.order = pre ++ post →
    Loop.Justified (Origin exec world g intent) s.log) ?_ ?_
  · exact fun _ _ _ => origin_opened
  · intro pre s id node output hreach inv hcont post hsplit
    have hsplit' : g.order = pre ++ id :: post := by simpa using hsplit
    exact origin_record ⟨⟨post, hsplit'⟩, hreach, hcont.found⟩ hcont.pre hcont.ran hcont.charged
      hcont.post (inv _ hsplit')

/-- Every event of an iteration that ends the run has an origin. -/
theorem StepExit.origin {x : Exit ρ} {post : List NodeId} (hsplit : g.order = pre ++ id :: post)
    (hreach : Reaches exec world g intent pre s) (hexit : StepExit exec world g intent s id x) :
    Loop.Justified (Origin exec world g intent) x.state.log := by
  have h := hreach.origin _ hsplit
  have hto : ∀ {node : Node}, g.nodes.lookup id = some node →
      ComesTo exec world g intent pre id s node := fun hfound => ⟨⟨post, hsplit⟩, hreach, hfound⟩
  cases hexit with
  | missing hfound =>
    simpa only [stopped, List.append_nil] using h
  | preDenied hfound hpre => exact origin_close (origin_pre (hto hfound) h)
  | prePaused hfound hpre => exact origin_close (origin_pre (hto hfound) h)
  | failed hfound hpre hran =>
    have hcomp := origin_compensate (hto hfound) hpre hran h
    rcases hroll : (g.rollbackOf intent pre).1 with e' | out
    · rw [failStep_stuck hreach hroll]
      exact hcomp
    · rw [failStep_rolledBack hreach hroll]
      exact origin_close hcomp
  | exhausted hfound hpre hran hcharged =>
    exact origin_close (origin_charge (hto hfound) hpre hran h)
  | postDenied hfound hpre hran hcharged hpost =>
    exact origin_close (origin_post (hto hfound) hpre hran hcharged h)
  | postPaused hfound hpre hran hcharged hpost =>
    exact origin_close (origin_post (hto hfound) hpre hran hcharged h)
  | unrecorded hfound hpre hran hcharged hpost hrecorded =>
    exact origin_record (hto hfound) hpre hran hcharged hpost h

/-- **Every event of a run has an origin.** -/
theorem RunCase.origin {x : Exit ρ} (h : RunCase exec world g intent x) :
    Loop.Justified (Origin exec world g intent) x.state.log := by
  cases h with
  | revoked hrev => exact Loop.Justified.nil
  | unopened hrev hopen => exact origin_opened
  | planDenied hrev hopen hplan => exact origin_close origin_opened
  | planPaused hrev hopen hplan => exact origin_close origin_opened
  | stoppedAt hsplit hreach hexit => exact hexit.origin hsplit hreach
  | artifactDenied hreach hart =>
    exact origin_close ((hreach.origin [] (by simp)).concat (Or.inl rfl))
  | artifactPaused hreach hart =>
    exact origin_close ((hreach.origin [] (by simp)).concat (Or.inl rfl))
  | completed hreach hart =>
    exact origin_close ((hreach.origin [] (by simp)).concat (Or.inl rfl))

/-! ### From an event back to its iteration -/

/-- An event of a run, other than a frame event, belongs to an iteration the run came to. -/
theorem comesTo_of_mem {ev : Event} (h : ev ∈ (exec.run world g intent).state.log)
    (hframe : ev.isFrame = false) :
    ∃ pre id s node b, ComesTo exec world g intent pre id s node ∧
      StepEvent exec world g intent pre s id node b ev := by
  obtain ⟨before, after, hsplit⟩ := List.append_of_mem h
  rcases run_cases.origin before ev after hsplit with hin | ⟨pre, id, s, node, b, hto, -, hstep⟩
  · rw [hframe] at hin
    cases hin
  · exact ⟨pre, id, s, node, b, hto, hstep⟩

/-- A leaf that was run belongs to a node the run came to and executed. -/
theorem comesTo_of_leafRun {id : NodeId} {prior : Outputs} {l : LeafNode}
    (h : Event.leafRun id prior l ∈ (exec.run world g intent).state.log) :
    ∃ pre s node, ComesTo exec world g intent pre id s node ∧
      (exec.preDecision intent node s).isAllowed = true ∧
      (exec.shadow && node.isWriteClass) = false ∧ l ∈ node.leaves ∧ prior = s.outputs := by
  obtain ⟨pre, id', s, node, b, hto, hstep⟩ := comesTo_of_mem h rfl
  cases hstep with
  | run hpre heq =>
    rcases runLog_split heq with ⟨-, heq⟩ | ⟨hs, ⟨l', hl', heq⟩ | heq⟩
    · cases heq
    · cases heq
      exact ⟨pre, s, node, hto, hpre, hs, hl', rfl⟩
    · cases heq

/-- So does the result of a node that was run. -/
theorem comesTo_of_nodeRun {id : NodeId} {prior : Outputs} {r : Except RuntimeError NodeOutput}
    (h : Event.nodeRun id prior r ∈ (exec.run world g intent).state.log) :
    ∃ pre s node, ComesTo exec world g intent pre id s node ∧
      (exec.preDecision intent node s).isAllowed = true ∧ node.run intent s.outputs = r := by
  obtain ⟨pre, id', s, node, b, hto, hstep⟩ := comesTo_of_mem h rfl
  cases hstep with
  | run hpre heq =>
    rcases runLog_split heq with ⟨-, heq⟩ | ⟨hs, ⟨l', hl', heq⟩ | heq⟩
    · cases heq
    · cases heq
    · injection heq with hid hprior hrun
      subst hid
      exact ⟨pre, s, node, hto, hpre, hrun.symm⟩

/-- A step that was recorded belongs to a node the run came to, with its output. -/
theorem comesTo_of_recorded {step : TraceStep} {r : Except RecorderError Unit}
    (h : Event.recorded step r ∈ (exec.run world g intent).state.log) :
    ∃ pre id s node output, ComesTo exec world g intent pre id s node ∧
      exec.outputOf intent id node s = .ok output ∧
      step = traceStepOf intent id node output (s.step + 1) := by
  obtain ⟨pre, id, s, node, b, hto, hstep⟩ := comesTo_of_mem h rfl
  cases hstep with
  | run hpre heq =>
    rcases runLog_split heq with ⟨-, heq⟩ | ⟨-, ⟨l, -, heq⟩ | heq⟩
    · cases heq
    · cases heq
    · cases heq
  | record hpre hran hcharged hpost => exact ⟨pre, id, s, node, _, hto, hran, rfl⟩

/-- A compensator that was run belongs to the rollback behind a node that failed. -/
theorem comesTo_of_compensatorRun {r : CompensatorRun}
    (h : Event.compensatorRun r ∈ (exec.run world g intent).state.log) :
    ∃ pre id s node e, ComesTo exec world g intent pre id s node ∧
      (exec.preDecision intent node s).isAllowed = true ∧
      exec.outputOf intent id node s = .error e ∧ r ∈ (g.rollbackOf intent pre).2 := by
  obtain ⟨pre, id, s, node, b, hto, hstep⟩ := comesTo_of_mem h rfl
  cases hstep with
  | run hpre heq =>
    rcases runLog_split heq with ⟨-, heq⟩ | ⟨-, ⟨l, -, heq⟩ | heq⟩
    · cases heq
    · cases heq
    · cases heq
  | compensate hpre hran hr => exact ⟨pre, id, s, node, _, hto, hpre, hran, hr⟩

/-! ## What is logged stays logged -/

/-- The log of an iteration is logged, whether the run goes on or ends. -/
theorem StepExit.log_prefix {x : Exit ρ} (hreach : Reaches exec world g intent pre s)
    (hexit : StepExit exec world g intent s id x) : s.log <+: x.state.log := by
  cases hexit with
  | failed hfound hpre hran =>
    rcases hroll : (g.rollbackOf intent pre).1 with e' | out
    · rw [failStep_stuck hreach hroll]
      exact List.prefix_append _ _
    · rw [failStep_rolledBack hreach hroll, closeTrace_log]
      exact (List.prefix_append _ _).trans (List.prefix_append _ _)
  | missing hfound => exact List.prefix_append _ _
  | unrecorded hfound hpre hran hcharged hpost hrecorded => exact List.prefix_append _ _
  | _ =>
    rw [closeTrace_log]
    exact (List.prefix_append _ _).trans (List.prefix_append _ _)

/-- What is logged when the run has got through a prefix of the order is in the
log of the run. -/
theorem Reaches.log_prefix :
    ∀ {post pre : List NodeId} {s : RunState ρ}, Reaches exec world g intent pre s →
      g.order = pre ++ post → s.log <+: (exec.run world g intent).state.log := by
  intro post
  induction post with
  | nil =>
    intro pre s hreach hsplit
    rw [List.append_nil] at hsplit
    rw [← hsplit] at hreach
    have hcase : ∀ {status : TraceStatus} {result : RunResult},
        RunCase exec world g intent
          (closeTrace intent status (exec.artifactState intent s) result) →
        s.log <+: (exec.run world g intent).state.log := by
      intro status result hx
      rw [run_eq_of_case hx, closeTrace_log]
      exact (List.prefix_append _ _).trans (List.prefix_append _ _)
    rcases hart : exec.artifactDecision intent s with _ | vs | vs | vs
    · exact hcase (.completed hreach (by rw [hart]; rfl))
    · exact hcase (.completed hreach (by rw [hart]; rfl))
    · exact hcase (.artifactPaused hreach hart)
    · exact hcase (.artifactDenied hreach hart)
  | cons id post ih =>
    intro pre s hreach hsplit
    rcases hnode : exec.runNode world g intent s id with x | s'
    · have hexit := runNode_error_iff.mp hnode
      rw [run_eq_of_case (.stoppedAt hsplit hreach hexit)]
      exact hexit.log_prefix hreach
    · obtain ⟨node, output, hcont, rfl⟩ := runNode_ok_iff.mp hnode
      have hnext := reaches_concat_iff.mpr ⟨s, node, output, hreach, hcont, rfl⟩
      exact (List.prefix_append _ _).trans (ih hnext (by simpa using hsplit))

/-- A node that passes `PreStep` is run: the log of its run is in the log. -/
theorem StepExit.run_prefix {x : Exit ρ} (hreach : Reaches exec world g intent pre s)
    (hfound : g.nodes.lookup id = some node)
    (hpre : (exec.preDecision intent node s).isAllowed = true)
    (hexit : StepExit exec world g intent s id x) :
    s.log ++ (exec.preLog intent id node s ++ exec.runLog intent id node s) <+: x.state.log := by
  have hsame : ∀ {node' : Node}, g.nodes.lookup id = some node' → node' = node :=
    fun h => Option.some.inj (h.symm.trans hfound)
  cases hexit with
  | missing h =>
    rw [h] at hfound
    cases hfound
  | preDenied h hdeny =>
    obtain rfl := hsame h
    rw [hdeny] at hpre
    cases hpre
  | prePaused h hpause =>
    obtain rfl := hsame h
    rw [hpause] at hpre
    cases hpre
  | failed h hpre' hran =>
    obtain rfl := hsame h
    rcases hroll : (g.rollbackOf intent pre).1 with e' | out
    · rw [failStep_stuck hreach hroll]
      exact (List.prefix_append_right_inj _).mpr (List.prefix_append _ _)
    · rw [failStep_rolledBack hreach hroll, closeTrace_log]
      exact ((List.prefix_append_right_inj _).mpr (List.prefix_append _ _)).trans
        (List.prefix_append _ _)
  | exhausted h hpre' hran hcharged =>
    obtain rfl := hsame h
    rw [closeTrace_log]
    exact ((List.prefix_append_right_inj _).mpr (List.prefix_append _ _)).trans
      (List.prefix_append _ _)
  | postDenied h hpre' hran hcharged hpost =>
    obtain rfl := hsame h
    rw [closeTrace_log, spent, List.append_assoc (exec.preLog intent id _ s ++ _)]
    exact ((List.prefix_append_right_inj _).mpr (List.prefix_append _ _)).trans
      (List.prefix_append _ _)
  | postPaused h hpre' hran hcharged hpost =>
    obtain rfl := hsame h
    rw [closeTrace_log, spent, List.append_assoc (exec.preLog intent id _ s ++ _)]
    exact ((List.prefix_append_right_inj _).mpr (List.prefix_append _ _)).trans
      (List.prefix_append _ _)
  | unrecorded h hpre' hran hcharged hpost hrecorded =>
    obtain rfl := hsame h
    simp only [spent, stepLog, List.append_assoc]
    exact (List.prefix_append_right_inj _).mpr ((List.prefix_append_right_inj _).mpr
      (List.prefix_append _ _))

theorem ComesTo.run_prefix (hto : ComesTo exec world g intent pre id s node)
    (hpre : (exec.preDecision intent node s).isAllowed = true) :
    s.log ++ (exec.preLog intent id node s ++ exec.runLog intent id node s) <+:
      (exec.run world g intent).state.log := by
  obtain ⟨post, hsplit⟩ := hto.split
  rcases hnode : exec.runNode world g intent s id with x | s'
  · have hexit := runNode_error_iff.mp hnode
    rw [run_eq_of_case (.stoppedAt hsplit hto.reach hexit)]
    exact hexit.run_prefix hto.reach hto.found hpre
  · obtain ⟨node', output, hcont, rfl⟩ := runNode_ok_iff.mp hnode
    obtain rfl : node' = node := Option.some.inj (hcont.found.symm.trans hto.found)
    have hnext := reaches_concat_iff.mpr ⟨s, node', output, hto.reach, hcont, rfl⟩
    refine List.IsPrefix.trans ?_ (hnext.log_prefix (by simpa using hsplit))
    simp only [nextState, stepLog, List.append_assoc]
    exact (List.prefix_append_right_inj _).mpr ((List.prefix_append_right_inj _).mpr
      (List.prefix_append _ _))

/-- A node that passes `PreStep` and fails has its predecessors' compensators run. -/
theorem ComesTo.rollback_mem {e : RuntimeError} {r : CompensatorRun}
    (hto : ComesTo exec world g intent pre id s node)
    (hpre : (exec.preDecision intent node s).isAllowed = true)
    (hran : exec.outputOf intent id node s = .error e) (hr : r ∈ (g.rollbackOf intent pre).2) :
    Event.compensatorRun r ∈ (exec.run world g intent).state.log := by
  obtain ⟨post, hsplit⟩ := hto.split
  have hmem : Event.compensatorRun r ∈ s.log ++ (exec.preLog intent id node s ++
      exec.runLog intent id node s ++ (g.rollbackOf intent pre).2.map .compensatorRun) :=
    List.mem_append_right _ (List.mem_append_right _ (List.mem_map_of_mem hr))
  rw [run_eq_of_case (.stoppedAt hsplit hto.reach (.failed hto.found hpre hran))]
  rcases hroll : (g.rollbackOf intent pre).1 with e' | out
  · rw [failStep_stuck hto.reach hroll]
    exact hmem
  · rw [failStep_rolledBack hto.reach hroll, closeTrace_log]
    exact List.mem_append_left _ hmem

end Log

/-! ## The recorder along a run -/

section Recorder

@[simp] theorem recorderOk_runLog {ρ : Type} (exec : GraphExecutor ρ) (intent : IntentEnvelope)
    (id : NodeId) (node : Node) (s : RunState ρ) : RecorderOk (exec.runLog intent id node s) := by
  intro ev hev
  rcases mem_runLog hev with ⟨-, rfl⟩ | ⟨-, ⟨l, -, rfl⟩ | rfl⟩
  · trivial
  · trivial
  · trivial

@[simp] theorem recorderOk_compensators (runs : List CompensatorRun) :
    RecorderOk (runs.map .compensatorRun) := by
  intro ev hev
  obtain ⟨r, -, rfl⟩ := List.mem_map.mp hev
  trivial

section Blocks

variable {ρ : Type} (exec : GraphExecutor ρ) (world : World) (intent : IntentEnvelope)
  (id : NodeId) (node : Node) (output : NodeOutput) (s : RunState ρ)

@[simp] theorem recorderOk_preLog : RecorderOk (exec.preLog intent id node s) := by
  simp [RecorderOk, preLog, Event.recorderOk]

@[simp] theorem recorderOk_chargeLog : RecorderOk (chargeLog world id output s) := by
  simp [RecorderOk, chargeLog, Event.recorderOk]

@[simp] theorem recorderOk_postLog : RecorderOk (exec.postLog world intent id node output s) := by
  simp [RecorderOk, postLog, Event.recorderOk]

end Blocks

/-- Wherever a run gets, the recorder has not failed it. -/
theorem Reaches.recorderOk {ρ : Type} [TraceRecorder ρ] {exec : GraphExecutor ρ} {world : World}
    {g : Graph} {intent : IntentEnvelope} {pre : List NodeId} {s : RunState ρ}
    (h : Reaches exec world g intent pre s) : RecorderOk s.log := by
  refine h.induction (I := fun _ s => RecorderOk s.log) ?_ ?_
  · intro h₀ ev hev
    obtain ⟨-, hopen, -, -⟩ := reaches_nil_iff.mp h₀
    simp only [openedState, List.mem_cons, List.not_mem_nil, or_false] at hev
    rcases hev with rfl | rfl
    · trivial
    · exact hopen
  · intro pre s id node output _ inv hcont
    refine recorderOk_append.mpr ⟨inv, fun ev hev => ?_⟩
    rcases mem_stepLog hev with rfl | hrun | rfl | rfl | rfl
    · trivial
    · exact recorderOk_runLog exec intent id node s ev hrun
    · trivial
    · trivial
    · exact hcont.recorded

variable {ρ : Type} [LawfulRecorder ρ] {exec : GraphExecutor ρ} {world : World} {g : Graph}
  {intent : IntentEnvelope} {pre : List NodeId} {s : RunState ρ}

/-- The trace stays open while the loop runs. -/
theorem Reaches.isOpen (h : Reaches exec world g intent pre s) :
    LawfulRecorder.IsOpen s.recorder intent.traceId := by
  refine h.induction (I := fun _ s => LawfulRecorder.IsOpen s.recorder intent.traceId) ?_ ?_
  · exact fun _ => (LawfulRecorder.open_ok _ _ _).2
  · intro pre s id node output _ inv _
    exact (LawfulRecorder.record_ok (traceStepOf intent id node output (s.step + 1)) s.recorder
      inv).2

/-- An open trace takes the step of any node. -/
theorem Reaches.record_ok (h : Reaches exec world g intent pre s) (id : NodeId) (node : Node)
    (output : NodeOutput) : (recordOf intent id node output s).1 = .ok () :=
  (LawfulRecorder.record_ok (traceStepOf intent id node output (s.step + 1)) s.recorder h.isOpen).1

/-- A close on an open trace succeeds. -/
theorem recorderOk_closeTrace {status : TraceStatus} {result : RunResult}
    (hlog : RecorderOk s.log) (hopen : LawfulRecorder.IsOpen s.recorder intent.traceId) :
    RecorderOk (closeTrace intent status s result).state.log := by
  rw [closeTrace_log, recorderOk_append]
  refine ⟨hlog, fun ev hev => ?_⟩
  obtain rfl := List.mem_singleton.mp hev
  exact LawfulRecorder.close_ok _ _ _ hopen

/-- It returns the intended result. -/
theorem result_closeTrace {status : TraceStatus} {result : RunResult}
    (hopen : LawfulRecorder.IsOpen s.recorder intent.traceId) :
    (closeTrace intent status s result).result = result :=
  closeTrace_result (LawfulRecorder.close_ok _ _ _ hopen)

/-- **A lawful recorder never fails a run.** -/
theorem RunCase.recorderOk {x : Exit ρ} (h : RunCase exec world g intent x) :
    RecorderOk x.state.log := by
  have hopened : RecorderOk (exec.openedState intent).log := by
    intro ev hev
    simp only [openedState, List.mem_cons, List.not_mem_nil, or_false] at hev
    rcases hev with rfl | rfl
    · trivial
    · exact (LawfulRecorder.open_ok _ _ _).1
  have hopen₀ : LawfulRecorder.IsOpen (exec.openedState intent).recorder intent.traceId :=
    (LawfulRecorder.open_ok _ _ _).2
  have hartifact : ∀ {s : RunState ρ}, Reaches exec world g intent g.order s →
      RecorderOk (exec.artifactState intent s).log := by
    intro s hreach
    refine recorderOk_append.mpr ⟨hreach.recorderOk, ?_⟩
    simp [RecorderOk, Event.recorderOk]
  cases h with
  | revoked hrev => exact fun ev hev => absurd hev List.not_mem_nil
  | unopened hrev hopen => exact hopened
  | planDenied hrev hopen hplan => exact recorderOk_closeTrace hopened hopen₀
  | planPaused hrev hopen hplan => exact recorderOk_closeTrace hopened hopen₀
  | @stoppedAt pre post id s x hsplit hreach hexit =>
    have hopen := hreach.isOpen
    have hlog := hreach.recorderOk
    cases hexit with
    | missing hfound => simpa [stopped] using hlog
    | preDenied hfound hpre => exact recorderOk_closeTrace (by simp [stopped, hlog]) hopen
    | prePaused hfound hpre => exact recorderOk_closeTrace (by simp [stopped, hlog]) hopen
    | @failed node e hfound hpre hran =>
      rcases hroll : (g.rollbackOf intent pre).1 with e' | out
      · rw [failStep_stuck hreach hroll]
        simp [stopped, hlog]
      · rw [failStep_rolledBack hreach hroll]
        exact recorderOk_closeTrace (by simp [stopped, hlog]) hopen
    | exhausted hfound hpre hran hcharged =>
      exact recorderOk_closeTrace (by simp [spent, hlog]) hopen
    | postDenied hfound hpre hran hcharged hpost =>
      exact recorderOk_closeTrace (by simp [spent, hlog]) hopen
    | postPaused hfound hpre hran hcharged hpost =>
      exact recorderOk_closeTrace (by simp [spent, hlog]) hopen
    | @unrecorded node output e hfound hpre hran hcharged hpost hrecorded =>
      rw [hreach.record_ok] at hrecorded
      cases hrecorded
  | artifactDenied hreach hart => exact recorderOk_closeTrace (hartifact hreach) hreach.isOpen
  | artifactPaused hreach hart => exact recorderOk_closeTrace (hartifact hreach) hreach.isOpen
  | completed hreach hart => exact recorderOk_closeTrace (hartifact hreach) hreach.isOpen

end Recorder

end GraphExecutor

/-! ## A two-step deployment

Concrete inputs on which runs are evaluated. -/

namespace Sample

def nodeA : NodeId := ⟨"a"⟩

def nodeB : NodeId := ⟨"b"⟩

def intent : IntentEnvelope where
  intentId := ⟨"int-1"⟩
  intentType := .transactionalIntent
  requester := ⟨"alice", "operator", [], none⟩
  goal := "move stock"
  domain := "warehouse"
  constraints := ∅
  budget := ⟨1000, .finite 1, 1000⟩
  deadline := none
  riskTier := .write
  approvalPolicy := "human"
  outputContract := none
  traceId := ⟨"trace-1"⟩
  depth := 0
  createdAt := 0
  entitiesInContext := []

/-- Clocks that stand still; every output rendered here is `null`. -/
def world : World := ⟨fun _ => 0, fun _ => "null"⟩

def okNode (id : NodeId) (sideEffect : SideEffect) : Node :=
  .deterministic id sideEffect 0 fun _ _ => .ok .null

def failingNode (id : NodeId) (sideEffect : SideEffect) : Node :=
  .deterministic id sideEffect 0 fun _ _ => .error (.node "boom")

/-- The graph `a → b` with a compensator for `a`. -/
def pipeline (first second compensator : Node) : ValidGraph where
  nodes := [⟨nodeA, first⟩, ⟨nodeB, second⟩].toAList
  edges := [⟨nodeA, nodeB⟩]
  order := [nodeA, nodeB]
  compensators := AList.singleton nodeA compensator
  validated := ⟨⟨fun l => l, fun _ => .refl _⟩, [⟨nodeA, first⟩, ⟨nodeB, second⟩].toAList,
    [⟨nodeA, nodeB⟩], AList.singleton nodeA compensator, by rfl⟩

/-- What the graph holds under an id. -/
theorem pipeline_found {first second compensator : Node} {id : NodeId} {node : Node}
    (h : (pipeline first second compensator).nodes.lookup id = some node) :
    (id = nodeA ∧ node = first) ∨ (id = nodeB ∧ node = second) := by
  have hentries : (pipeline first second compensator).nodes.entries =
      [⟨nodeA, first⟩, ⟨nodeB, second⟩] := rfl
  have hmem := AList.mem_lookup_iff.mp h
  rw [hentries, List.mem_cons, List.mem_singleton] at hmem
  rcases hmem with heq | heq
  · cases heq
    exact Or.inl ⟨rfl, rfl⟩
  · cases heq
    exact Or.inr ⟨rfl, rfl⟩

/-- An executor over an in-memory recorder with the given rules. -/
def executor (rules : List Rule) : GraphExecutor (Recorder InMemoryTraceStore) :=
  .new ⟨rules⟩ Recorder.inMemory intent.budget

end Sample

end Aaf
