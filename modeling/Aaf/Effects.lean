import Aaf.ExecutorRun

/-!
# Which effects a run can have

A run touches the world in two ways: it executes leaves, and it runs compensators. Both
are in the log with the verdicts that let them happen (`RunCase.origin`), so a
question about effects is a question about the iterations the run comes to.

* In shadow mode the guard looks at the side effect a node declares. It misses
  what a fork runs inside, and it does not reach the compensators of the
  shadowed writes (`shadow_noWriteEffects_iff`).
* The `PreStep` hook sees the same declared side effect, so policy covers every
  write-class leaf except those inside a fork (`policyCovers_iff`).
-/

namespace Aaf

/-- The event is the run of a compensator. -/
def Event.isCompensatorRun : Event → Bool
  | .compensatorRun _ => true
  | _ => false

/-- The event is the run of a write-class leaf. -/
def Event.isWriteLeafRun : Event → Bool
  | .leafRun _ _ leaf => leaf.sideEffect.requiresCompensation
  | _ => false

/-- The event announces a write-class side effect to policy. -/
def Event.announcesWrite : Event → Bool
  | .policy .preStep _ ctx _ => ctx.sideEffect.elim false SideEffect.requiresCompensation
  | _ => false

/-- A rollback runs nothing exactly when nothing is queued. -/
theorem Graph.rollbackOf_eq_nil_iff {g : Graph} {intent : IntentEnvelope} {pre : List NodeId} :
    (g.rollbackOf intent pre).2 = [] ↔ ∀ x ∈ pre, g.compensatorOf x = none := by
  have hrev : pre.filterMap g.compensatorOf = [] ↔ (pre.filterMap g.compensatorOf).reverse = [] :=
    List.reverse_eq_nil_iff.symm
  rw [← List.filterMap_eq_nil_iff, hrev, Graph.rollbackOf]
  rcases (pre.filterMap g.compensatorOf).reverse with _ | ⟨⟨step, comp⟩, rest⟩
  · simp [CompensationChain.drain]
  · simp only [CompensationChain.drain, reduceCtorEq, iff_false]
    split
    · exact List.cons_ne_nil _ _
    · exact List.cons_ne_nil _ _

namespace GraphExecutor

variable {ρ : Type} [TraceRecorder ρ] {exec : GraphExecutor ρ} {world : World} {g : Graph}
  {intent : IntentEnvelope} {pre : List NodeId} {s : RunState ρ} {id : NodeId} {node : Node}

/-! ## Leaves and compensators -/

omit [TraceRecorder ρ] in
/-- Only a node that was really run fails. -/
theorem outputOf_error {e : RuntimeError} (h : exec.outputOf intent id node s = .error e) :
    (exec.shadow && node.isWriteClass) = false ∧ node.run intent s.outputs = .error e := by
  rw [outputOf] at h
  split at h
  · cases h
  · next hs => exact ⟨Bool.eq_false_of_not_eq_true hs, h⟩

omit [TraceRecorder ρ] in
/-- A node that is not write-class is run even in shadow mode. -/
theorem outputOf_of_not_write (h : node.isWriteClass = false) :
    exec.outputOf intent id node s = node.run intent s.outputs := by
  rw [outputOf, h, Bool.and_false, if_neg Bool.false_ne_true]

/-! ## Shadow mode -/

/-- No write-class leaf and no compensator was run. -/
def NoWriteEffects (log : List Event) : Prop :=
  (∀ id prior leaf, Event.leafRun id prior leaf ∈ log →
    leaf.sideEffect.requiresCompensation = false) ∧
  ∀ r, Event.compensatorRun r ∉ log

omit [TraceRecorder ρ] in
/-- The leaves a node runs are all in the log of its run. -/
theorem leafRun_mem_runLog (h : (exec.shadow && node.isWriteClass) = false) {l : LeafNode}
    (hl : l ∈ node.leaves) : Event.leafRun id s.outputs l ∈ exec.runLog intent id node s := by
  rw [runLog, h, if_neg Bool.false_ne_true]
  exact List.mem_append_left _ (List.mem_map_of_mem hl)

/-- **Shadow mode, exactly.** A shadow run has no write effect if and only if no
node it runs has a write-class leaf inside, and no node it runs fails behind a
shadowed write that has a compensator. -/
theorem shadow_noWriteEffects_iff (exec : GraphExecutor ρ) (world : World) (g : Graph)
    (intent : IntentEnvelope) :
    NoWriteEffects (exec.withShadow.run world g intent).state.log ↔
      ∀ pre id s node, ComesTo exec.withShadow world g intent pre id s node →
        (exec.withShadow.preDecision intent node s).isAllowed = true →
        node.isWriteClass = false →
          node.hasWriteLeaf = false ∧
            ∀ e, node.run intent s.outputs = .error e → ∀ x ∈ pre, g.compensatorOf x = none := by
  refine ⟨fun h pre id s node hto hpre hwrite => ⟨?_, fun e he => ?_⟩,
    fun h => ⟨fun id prior leaf hev => ?_, fun r hev => ?_⟩⟩
  · -- the leaves of the node are in the log
    by_contra hhas
    obtain ⟨l, hl, hw⟩ := List.any_eq_true.mp (Bool.eq_true_of_not_eq_false hhas)
    have hmem : Event.leafRun id s.outputs l ∈ exec.withShadow.runLog intent id node s :=
      leafRun_mem_runLog (by rw [hwrite, Bool.and_false]) hl
    have hlog := (hto.run_prefix hpre).subset (List.mem_append_right _ (List.mem_append_right _ hmem))
    rw [h.1 _ _ _ hlog] at hw
    cases hw
  · -- so are the compensators its failure runs
    rw [← Graph.rollbackOf_eq_nil_iff, List.eq_nil_iff_forall_not_mem]
    intro r hr
    have hran : exec.withShadow.outputOf intent id node s = .error e := by
      rw [outputOf_of_not_write hwrite, he]
    exact h.2 r (hto.rollback_mem hpre hran hr)
  · obtain ⟨pre, s, node, hto, hpre, hs, hl, -⟩ := comesTo_of_leafRun hev
    have hwrite : node.isWriteClass = false := by simpa [withShadow] using hs
    have hnone := (h pre _ s node hto hpre hwrite).1
    rw [Node.hasWriteLeaf, List.any_eq_false] at hnone
    exact Bool.eq_false_of_not_eq_true (hnone leaf hl)
  · obtain ⟨pre, id, s, node, e, hto, hpre, hran, hr⟩ := comesTo_of_compensatorRun hev
    obtain ⟨hs, hrun⟩ := outputOf_error hran
    have hwrite : node.isWriteClass = false := by simpa [withShadow] using hs
    have hnone := (h pre id s node hto hpre hwrite).2 _ hrun
    rw [Graph.rollbackOf_eq_nil_iff.mpr hnone] at hr
    cases hr

/-- A shadow run of a write followed by a read that fails runs the compensator
of the write that never happened. -/
theorem shadow_runs_compensator :
    ¬ NoWriteEffects ((Sample.executor []).withShadow.run Sample.world
      (Sample.pipeline (Sample.okNode Sample.nodeA .write) (Sample.failingNode Sample.nodeB .read)
        (Sample.okNode ⟨"undo-a"⟩ .write)).toGraph Sample.intent).state.log := by
  rintro ⟨-, hcomp⟩
  have hany : ((Sample.executor []).withShadow.run Sample.world
      (Sample.pipeline (Sample.okNode Sample.nodeA .write) (Sample.failingNode Sample.nodeB .read)
        (Sample.okNode ⟨"undo-a"⟩ .write)).toGraph Sample.intent).state.log.any
      Event.isCompensatorRun = true := by decide +kernel
  obtain ⟨ev, hmem, hev⟩ := List.any_eq_true.mp hany
  cases ev with
  | compensatorRun r => exact hcomp r hmem
  | _ => cases hev

/-! ## Policy coverage -/

/-- Every write-class leaf that runs was announced to policy: before it, `PreStep`
was evaluated for the graph node around it with a write-class side effect, and
every evaluation after it, for other nodes, counts one more write. -/
def PolicyCovers (log : List Event) : Prop :=
  ∀ before id prior leaf after, log = before ++ Event.leafRun id prior leaf :: after →
    leaf.sideEffect.requiresCompensation = true →
      ∃ ctx decision, Event.policy .preStep (some id) ctx decision ∈ before ∧
        (∃ se, ctx.sideEffect = some se ∧ se.requiresCompensation = true) ∧
        ∀ hook other ctx' decision', Event.policy hook other ctx' decision' ∈ after →
          other ≠ some id → ctx.composedWrites < ctx'.composedWrites

/-- A write announced by the first event is counted in the second, if that is an
evaluation for another node. -/
def CountedIn : Event → Event → Prop
  | .policy .preStep (some id) ctx _, .policy _ other ctx' _ =>
    (∃ se, ctx.sideEffect = some se ∧ se.requiresCompensation = true) → other ≠ some id →
      ctx.composedWrites < ctx'.composedWrites
  | _, _ => True

/-- Every evaluation in the block is for the node `id` and sees `writes` writes. -/
def EvaluatesFor (id : NodeId) (writes : ℕ) (block : List Event) : Prop :=
  ∀ hook other ctx decision, Event.policy hook other ctx decision ∈ block →
    other = some id ∧ ctx.composedWrites = writes

/-- Every announced write is counted by now. -/
def CountedBy (writes : ℕ) (log : List Event) : Prop :=
  ∀ id ctx decision, Event.policy .preStep (some id) ctx decision ∈ log →
    (∃ se, ctx.sideEffect = some se ∧ se.requiresCompensation = true) → ctx.composedWrites < writes

/-- Adding the block of one iteration keeps the counts in order. -/
theorem pairwise_countedIn_append {log block : List Event} {writes : ℕ}
    (hlog : log.Pairwise CountedIn) (hby : CountedBy writes log)
    (hblock : EvaluatesFor id writes block) : (log ++ block).Pairwise CountedIn := by
  refine List.pairwise_append.mpr ⟨hlog, ?_, fun a ha b hb => ?_⟩
  · -- inside the block all evaluations are for one node
    refine List.pairwise_of_forall_mem_list fun a ha b hb => ?_
    unfold CountedIn
    split
    · next id' ctx d hook other ctx' d' =>
      intro _ hne
      have ha' := (hblock _ _ _ _ ha).1
      have hb' := (hblock _ _ _ _ hb).1
      exact absurd (hb'.trans ha'.symm) hne
    · trivial
  · unfold CountedIn
    split
    · next id' ctx d hook other ctx' d' =>
      intro hw _
      rw [(hblock _ _ _ _ hb).2]
      exact hby _ _ _ ha hw
    · trivial

section Blocks

variable {writes : ℕ} {l l' : List Event}

@[simp] theorem evaluatesFor_append :
    EvaluatesFor id writes (l ++ l') ↔ EvaluatesFor id writes l ∧ EvaluatesFor id writes l' := by
  refine ⟨fun h => ⟨fun hook other ctx d hev => ?_, fun hook other ctx d hev => ?_⟩, ?_⟩
  · exact h hook other ctx d (List.mem_append_left _ hev)
  · exact h hook other ctx d (List.mem_append_right _ hev)
  · rintro ⟨h, h'⟩ hook other ctx d hev
    rcases List.mem_append.mp hev with hev | hev
    · exact h hook other ctx d hev
    · exact h' hook other ctx d hev

/-- A block without evaluations. -/
theorem evaluatesFor_of_forall_ne
    (h : ∀ hook other ctx decision, Event.policy hook other ctx decision ∉ l) :
    EvaluatesFor id writes l :=
  fun hook other ctx decision hev => absurd hev (h hook other ctx decision)

@[simp] theorem evaluatesFor_closed {status : TraceStatus} {r : Except RecorderError Unit} :
    EvaluatesFor id writes [.closed status r] :=
  evaluatesFor_of_forall_ne (by simp)

@[simp] theorem evaluatesFor_compensators {runs : List CompensatorRun} :
    EvaluatesFor id writes (runs.map .compensatorRun) :=
  evaluatesFor_of_forall_ne (by simp)

omit [TraceRecorder ρ] in
@[simp] theorem evaluatesFor_runLog :
    EvaluatesFor id writes (exec.runLog intent id node s) := by
  refine evaluatesFor_of_forall_ne fun hook other ctx decision hev => ?_
  rcases mem_runLog hev with ⟨-, heq⟩ | ⟨-, ⟨l, -, heq⟩ | heq⟩
  · cases heq
  · cases heq
  · cases heq

omit [TraceRecorder ρ] in
@[simp] theorem evaluatesFor_preLog :
    EvaluatesFor id s.composedWrites (exec.preLog intent id node s) := by
  intro hook other ctx decision hev
  rw [preLog, List.mem_singleton] at hev
  cases hev
  exact ⟨rfl, rfl⟩

omit [TraceRecorder ρ] in
@[simp] theorem evaluatesFor_postLog {output : NodeOutput} :
    EvaluatesFor id s.composedWrites (exec.postLog world intent id node output s) := by
  intro hook other ctx decision hev
  rw [postLog, List.mem_singleton] at hev
  cases hev
  exact ⟨rfl, rfl⟩

omit [TraceRecorder ρ] in
@[simp] theorem evaluatesFor_chargeLog {output : NodeOutput} :
    EvaluatesFor id writes (chargeLog world id output s) :=
  evaluatesFor_of_forall_ne (by simp [chargeLog])

@[simp] theorem evaluatesFor_stepLog {output : NodeOutput} :
    EvaluatesFor id s.composedWrites (exec.stepLog world intent id node output s) := by
  have hrecord : EvaluatesFor id s.composedWrites (recordLog intent id node output s) :=
    evaluatesFor_of_forall_ne (by simp [recordLog])
  simp [stepLog, hrecord]

/-- What an iteration that ends the run appends to the log. -/
theorem StepExit.evaluatesFor {x : Exit ρ} (hreach : Reaches exec world g intent pre s)
    (hexit : StepExit exec world g intent s id x) :
    ∃ block, x.state.log = s.log ++ block ∧ EvaluatesFor id s.composedWrites block := by
  cases hexit with
  | missing hfound => exact ⟨[], rfl, evaluatesFor_of_forall_ne (by simp)⟩
  | failed hfound hpre hran =>
    rcases hroll : (g.rollbackOf intent pre).1 with e' | out
    · rw [failStep_stuck hreach hroll]
      exact ⟨_, rfl, by simp⟩
    · rw [failStep_rolledBack hreach hroll, closeTrace_log, stopped, List.append_assoc]
      exact ⟨_, rfl, by simp⟩
  | unrecorded hfound hpre hran hcharged hpost hrecorded => exact ⟨_, rfl, by simp⟩
  | preDenied hfound hpre =>
    rw [closeTrace_log, stopped, List.append_assoc]
    exact ⟨_, rfl, by simp⟩
  | prePaused hfound hpre =>
    rw [closeTrace_log, stopped, List.append_assoc]
    exact ⟨_, rfl, by simp⟩
  | exhausted hfound hpre hran hcharged =>
    rw [closeTrace_log, spent, List.append_assoc]
    exact ⟨_, rfl, by simp⟩
  | postDenied hfound hpre hran hcharged hpost =>
    rw [closeTrace_log, spent, List.append_assoc]
    exact ⟨_, rfl, by simp⟩
  | postPaused hfound hpre hran hcharged hpost =>
    rw [closeTrace_log, spent, List.append_assoc]
    exact ⟨_, rfl, by simp⟩

end Blocks

/-- Wherever a run gets, the writes announced so far are counted. -/
theorem Reaches.counted (h : Reaches exec world g intent pre s) :
    s.log.Pairwise CountedIn ∧ CountedBy s.composedWrites s.log := by
  refine h.induction
    (I := fun _ s => s.log.Pairwise CountedIn ∧ CountedBy s.composedWrites s.log) ?_ ?_
  · refine fun _ => ⟨?_, fun id ctx d hev => ?_⟩
    · refine List.pairwise_of_forall_mem_list fun a ha b hb => ?_
      simp only [openedState, List.mem_cons, List.not_mem_nil, or_false] at ha
      rcases ha with rfl | rfl
      · trivial
      · trivial
    · simp [openedState] at hev
  · rintro pre s id node output hreach ⟨hpair, hby⟩ hcont
    refine ⟨pairwise_countedIn_append hpair hby evaluatesFor_stepLog, fun id' ctx d hev hw => ?_⟩
    rcases List.mem_append.mp hev with hev | hev
    · exact Nat.lt_of_lt_of_le (hby id' ctx d hev hw) (Nat.le_add_right _ _)
    · -- the write this iteration announced is counted at its end
      have hwrites := (evaluatesFor_stepLog _ _ _ _ hev).2
      rcases mem_stepLog hev with heq | hrun | heq | heq | heq
      · cases heq
        obtain ⟨se, hse, hcomp⟩ := hw
        have hwrite : node.isWriteClass = true := by
          rw [Node.isWriteClass, Option.some.inj hse, hcomp]
        rw [hwrites, nextState, hwrite]
        exact Nat.lt_succ_self _
      · rcases mem_runLog hrun with ⟨-, heq⟩ | ⟨-, ⟨l, -, heq⟩ | heq⟩
        · cases heq
        · cases heq
        · cases heq
      · cases heq
      · cases heq
      · cases heq

/-- In the log of a run every announced write is counted from then on. -/
theorem RunCase.counted {x : Exit ρ} (h : RunCase exec world g intent x) :
    x.state.log.Pairwise CountedIn := by
  -- before the loop nothing is announced
  have hopened : ∀ {l : List Event}, (∀ ev ∈ l, ev.isFrame = true) → l.Pairwise CountedIn := by
    intro l hl
    refine List.pairwise_of_forall_mem_list fun a ha b hb => ?_
    unfold CountedIn
    split
    · cases hl _ ha
    · trivial
  -- after it one evaluation follows, which sees all writes
  have hartifact : ∀ {s : RunState ρ} {status : TraceStatus} {result : RunResult},
      Reaches exec world g intent g.order s →
      (closeTrace intent status (exec.artifactState intent s) result).state.log.Pairwise
        CountedIn := by
    intro s status result hreach
    obtain ⟨hpair, hby⟩ := hreach.counted
    rw [closeTrace_log, artifactState, List.append_assoc]
    refine List.pairwise_append.mpr ⟨hpair, hopened (by simp [Event.isFrame]), fun a ha b hb => ?_⟩
    unfold CountedIn
    split
    · next id ctx d hook other ctx' d' =>
      intro hw _
      simp only [List.singleton_append, List.mem_cons, List.not_mem_nil, or_false] at hb
      rcases hb with hb | hb
      · cases hb
        exact hby _ _ _ ha hw
      · cases hb
    · trivial
  cases h with
  | revoked hrev => exact List.Pairwise.nil
  | unopened hrev hopen => exact hopened (by simp [openedState, Event.isFrame])
  | planDenied hrev hopen hplan => exact hopened (by simp [openedState, Event.isFrame])
  | planPaused hrev hopen hplan => exact hopened (by simp [openedState, Event.isFrame])
  | stoppedAt hsplit hreach hexit =>
    obtain ⟨hpair, hby⟩ := hreach.counted
    obtain ⟨block, hlog, hblock⟩ := hexit.evaluatesFor hreach
    rw [hlog]
    exact pairwise_countedIn_append hpair hby hblock
  | artifactDenied hreach hart => exact hartifact hreach
  | artifactPaused hreach hart => exact hartifact hreach
  | completed hreach hart => exact hartifact hreach

/-- Whatever `PreStep` was evaluated for a node, it was told what the node declares. -/
theorem sideEffect_of_preStep {id : NodeId} {node : Node} {ctx : PolicyContext} {d : PolicyDecision}
    (hfound : g.nodes.lookup id = some node)
    (h : Event.policy .preStep (some id) ctx d ∈ (exec.run world g intent).state.log) :
    ctx.sideEffect = some node.sideEffect := by
  obtain ⟨pre, id', s, node', b, hto, hstep⟩ := comesTo_of_mem h rfl
  cases hstep with
  | pre =>
    obtain rfl : node' = node := Option.some.inj (hto.found.symm.trans hfound)
    rfl
  | run hpre heq =>
    rcases runLog_split heq with ⟨-, heq⟩ | ⟨-, ⟨l, -, heq⟩ | heq⟩
    · cases heq
    · cases heq
    · cases heq

/-- Before a leaf is run, `PreStep` is evaluated for the node around it. -/
theorem preStep_of_leafRun {before after : List Event} {id : NodeId} {prior : Outputs}
    {leaf : LeafNode}
    (h : (exec.run world g intent).state.log = before ++ Event.leafRun id prior leaf :: after) :
    ∃ pre s node, ComesTo exec world g intent pre id s node ∧
      (exec.preDecision intent node s).isAllowed = true ∧ leaf ∈ node.leaves ∧
      Event.policy .preStep (some id) (preContext intent node s)
        (exec.preDecision intent node s) ∈ before := by
  rcases run_cases.origin _ _ _ h with hframe | ⟨pre, id', s, node, b, hto, hbefore, hstep⟩
  · cases hframe
  cases hstep with
  | run hpre heq =>
    rcases runLog_split heq with ⟨-, heq'⟩ | ⟨hs, ⟨l, hl, heq'⟩ | heq'⟩
    · cases heq'
    · cases heq'
      refine ⟨pre, s, node, hto, hpre, hl, ?_⟩
      rw [hbefore]
      exact List.mem_append_right _ (List.mem_append_left _ (List.mem_singleton.mpr rfl))
    · cases heq'

/-- **Policy coverage, exactly.** Every write-class leaf goes through policy if
and only if no node the run executes hides one, that is, is a fork around a
write-class leaf. -/
theorem policyCovers_iff (exec : GraphExecutor ρ) (world : World) (g : Graph)
    (intent : IntentEnvelope) :
    PolicyCovers (exec.run world g intent).state.log ↔
      ∀ pre id s node, ComesTo exec world g intent pre id s node →
        (exec.preDecision intent node s).isAllowed = true → node.hasWriteLeaf = true →
          node.isWriteClass = true := by
  refine ⟨fun h pre id s node hto hpre hhas => ?_, fun h before id prior leaf after hlog hw => ?_⟩
  · by_contra hwrite
    obtain ⟨l, hl, hlw⟩ := List.any_eq_true.mp hhas
    have hmem : Event.leafRun id s.outputs l ∈ exec.runLog intent id node s :=
      leafRun_mem_runLog (by rw [Bool.eq_false_of_not_eq_true hwrite, Bool.and_false]) hl
    have hlog := (hto.run_prefix hpre).subset (List.mem_append_right _ (List.mem_append_right _ hmem))
    obtain ⟨before, after, hsplit⟩ := List.append_of_mem hlog
    obtain ⟨ctx, d, hev, ⟨se, hse, hsew⟩, -⟩ := h before id s.outputs l after hsplit hlw
    have hin : Event.policy .preStep (some id) ctx d ∈ (exec.run world g intent).state.log := by
      rw [hsplit]
      exact List.mem_append_left _ hev
    rw [sideEffect_of_preStep hto.found hin] at hse
    cases hse
    exact hwrite hsew
  · obtain ⟨pre, s, node, hto, hpre, hl, hannounced⟩ := preStep_of_leafRun hlog
    have hwrite := h pre id s node hto hpre (List.any_eq_true.mpr ⟨leaf, hl, hw⟩)
    refine ⟨_, _, hannounced, ⟨node.sideEffect, rfl, hwrite⟩, fun hook other ctx' d' hev hne => ?_⟩
    have hpair : (exec.run world g intent).state.log.Pairwise CountedIn := run_cases.counted
    rw [hlog] at hpair
    have hcounted := (List.pairwise_append.mp hpair).2.2 _ hannounced _
      (List.mem_cons_of_mem _ hev)
    exact hcounted ⟨node.sideEffect, rfl, hwrite⟩ hne

/-- A run over a fork that takes a payment. -/
def forkedPayment : Exit (Recorder InMemoryTraceStore) :=
  (Sample.executor []).run Sample.world
    (Sample.pipeline (.fork Sample.nodeA 0 [Sample.okNode ⟨"pay"⟩ .payment])
      (Sample.okNode Sample.nodeB .read) (Sample.okNode ⟨"undo-a"⟩ .write)).toGraph Sample.intent

/-- The payment is made, and policy never hears of a write. -/
theorem forkedPayment_not_covered : ¬ PolicyCovers forkedPayment.state.log := by
  intro h
  have hruns : forkedPayment.state.log.any Event.isWriteLeafRun = true := by decide +kernel
  have hsilent : forkedPayment.state.log.any Event.announcesWrite = false := by decide +kernel
  obtain ⟨ev, hmem, hev⟩ := List.any_eq_true.mp hruns
  obtain ⟨before, after, hsplit⟩ := List.append_of_mem hmem
  cases ev with
  | leafRun id prior leaf =>
    obtain ⟨ctx, d, hpolicy, ⟨se, hse, hw⟩, -⟩ := h before id prior leaf after hsplit hev
    have hin : Event.policy .preStep (some id) ctx d ∈ forkedPayment.state.log := by
      rw [hsplit]
      exact List.mem_append_left _ hpolicy
    refine List.any_eq_false.mp hsilent _ hin ?_
    rw [Event.announcesWrite, hse]
    exact hw
  | _ => cases hev

end GraphExecutor

end Aaf
