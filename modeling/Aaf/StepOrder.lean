import Aaf.ExecutorRun

/-!
# When a node is run

A node of the graph is run once at most, after its own `PreStep` was allowed and
after each of its predecessors was run or shadowed, charged and passed by
`PostStep`; the map handed to it holds exactly the outputs produced so far; and
nothing that ends a run has happened yet. `Due` says this of one execution, and
`runs_in_order` of every execution in a run.

The part about predecessors is where validation meets the loop: the loop visits
the nodes in the order validation found, in which every edge goes forward.
-/

namespace Aaf

/-! ## Reading a log -/

/-- The node yielded an output: it ran and succeeded, or it was shadowed. -/
def Produced (log : List Event) (x : NodeId) (o : NodeOutput) : Prop :=
  (∃ prior, Event.nodeRun x prior (.ok o) ∈ log) ∨ Event.shadowed x o ∈ log

/-- The event executes the node `id`, or a leaf inside it, on the map `prior`. -/
inductive Event.Executes (id : NodeId) (prior : Outputs) : Event → Prop where
  | leaf {leaf : LeafNode} : Executes id prior (.leafRun id prior leaf)
  | node {result : Except RuntimeError NodeOutput} : Executes id prior (.nodeRun id prior result)

/-- The event is the end of the node's execution. -/
inductive Event.Finishes (id : NodeId) : Event → Prop where
  | node {prior : Outputs} {result : Except RuntimeError NodeOutput} :
    Finishes id (.nodeRun id prior result)
  | shadowed {output : NodeOutput} : Finishes id (.shadowed id output)

/-- The event ends a run: policy denies or asks for approval, the budget is
exhausted, or a node fails. -/
inductive Event.Stops : Event → Prop where
  | policy {hook : PolicyHook} {graphNode : Option NodeId} {ctx : PolicyContext}
    {decision : PolicyDecision} (h : decision.isAllowed = false) :
    Stops (.policy hook graphNode ctx decision)
  | charged {id : NodeId} {e : BudgetTrackerError} : Stops (.charged id (.error e))
  | failed {id : NodeId} {prior : Outputs} {e : RuntimeError} : Stops (.nodeRun id prior (.error e))

/-- The node was charged within budget and passed by `PostStep`. -/
def Passed (log : List Event) (x : NodeId) : Prop :=
  Event.charged x (.ok ()) ∈ log ∧
    ∃ ctx decision, Event.policy .postStep (some x) ctx decision ∈ log ∧ decision.isAllowed = true

/-- With `before` behind it, the run may execute the node `id` on `prior`. -/
structure Due (policy : PolicyEngine) (g : Graph) (before : List Event) (id : NodeId)
    (prior : Outputs) : Prop where
  allowed : ∃ ctx decision, Event.policy .preStep (some id) ctx decision ∈ before ∧
    decision = policy.evaluate .preStep ctx ∧ decision.isAllowed = true
  first : ∀ ev ∈ before, ¬ ev.Finishes id
  going : ∀ ev ∈ before, ¬ ev.Stops
  predecessors : ∀ e ∈ g.edges, e.toNode = id →
    ∃ o, Produced before e.fromNode o ∧ Passed before e.fromNode ∧
      prior.lookup e.fromNode = some o
  prior : ∀ x o, prior.lookup x = some o ↔ Produced before x o

theorem produced_append {l l' : List Event} {x : NodeId} {o : NodeOutput} :
    Produced (l ++ l') x o ↔ Produced l x o ∨ Produced l' x o := by
  unfold Produced
  simp only [List.mem_append, exists_or]
  tauto

theorem Produced.finishes {log : List Event} {x : NodeId} {o : NodeOutput}
    (h : Produced log x o) : ∃ ev ∈ log, ev.Finishes x := by
  rcases h with ⟨prior, h⟩ | h
  · exact ⟨_, h, .node⟩
  · exact ⟨_, h, .shadowed⟩

theorem Passed.append {l : List Event} {x : NodeId} (h : Passed l x) (l' : List Event) :
    Passed (l ++ l') x := by
  obtain ⟨hcharged, ctx, d, hpost, hallowed⟩ := h
  exact ⟨List.mem_append_left _ hcharged, ctx, d, List.mem_append_left _ hpost, hallowed⟩

namespace GraphExecutor

variable {ρ : Type} [TraceRecorder ρ] {exec : GraphExecutor ρ} {world : World} {g : ValidGraph}
  {intent : IntentEnvelope} {pre : List NodeId} {s : RunState ρ} {id : NodeId} {node : Node}
  {output : NodeOutput}

/-! ## One iteration -/

omit [TraceRecorder ρ] in
/-- What the run of a node yields is what it logs. -/
theorem produced_runLog (h : exec.outputOf intent id node s = .ok output) {x : NodeId}
    {o : NodeOutput} :
    Produced (exec.runLog intent id node s) x o ↔ x = id ∧ o = output := by
  rw [outputOf] at h
  rw [runLog, Produced]
  by_cases hs : (exec.shadow && node.isWriteClass) = true
  · rw [if_pos hs] at h ⊢
    cases h
    simp
  · rw [if_neg hs] at h ⊢
    simp [h]

/-- Nothing else of an iteration yields an output. -/
theorem produced_stepLog (h : exec.outputOf intent id node s = .ok output) {x : NodeId}
    {o : NodeOutput} :
    Produced (exec.stepLog world intent id node output s) x o ↔ x = id ∧ o = output := by
  have hpre : ¬ Produced (exec.preLog intent id node s) x o := by simp [Produced, preLog]
  have hcharge : ¬ Produced (chargeLog world id output s) x o := by simp [Produced, chargeLog]
  have hpost : ¬ Produced (exec.postLog world intent id node output s) x o := by
    simp [Produced, postLog]
  have hrecord : ¬ Produced (recordLog intent id node output s) x o := by simp [Produced, recordLog]
  rw [stepLog, produced_append, produced_append, produced_append, produced_append,
    produced_runLog h]
  tauto

omit [TraceRecorder ρ] in
/-- The run of a node finishes that node. -/
theorem finishes_runLog {ev : Event} {x : NodeId} (h : ev ∈ exec.runLog intent id node s)
    (hf : ev.Finishes x) : x = id := by
  rcases mem_runLog h with ⟨-, rfl⟩ | ⟨-, ⟨l, -, rfl⟩ | rfl⟩
  · cases hf
    rfl
  · cases hf
  · cases hf
    rfl

omit [TraceRecorder ρ] in
/-- A node that yields an output stops nothing. -/
theorem not_stops_runLog {ev : Event} (hran : exec.outputOf intent id node s = .ok output)
    (h : ev ∈ exec.runLog intent id node s) : ¬ ev.Stops := by
  rcases mem_runLog h with ⟨-, rfl⟩ | ⟨hs, ⟨l, -, rfl⟩ | rfl⟩
  · rintro ⟨⟩
  · rintro ⟨⟩
  · rw [outputOf, hs, if_neg Bool.false_ne_true] at hran
    rw [hran]
    rintro ⟨⟩

theorem finishes_stepLog {ev : Event} {x : NodeId}
    (h : ev ∈ exec.stepLog world intent id node output s) (hf : ev.Finishes x) : x = id := by
  rcases mem_stepLog h with rfl | hrun | rfl | rfl | rfl
  · cases hf
  · exact finishes_runLog hrun hf
  · cases hf
  · cases hf
  · cases hf

/-- An iteration that goes on stops nothing. -/
theorem not_stops_stepLog {ev : Event}
    (hcont : Continues exec world g.toGraph intent s id node output)
    (h : ev ∈ exec.stepLog world intent id node output s) : ¬ ev.Stops := by
  rcases mem_stepLog h with rfl | hrun | rfl | rfl | rfl
  · rintro ⟨h⟩
    rw [hcont.pre] at h
    cases h
  · exact not_stops_runLog hcont.ran hrun
  · rw [hcont.charged]
    rintro ⟨⟩
  · rintro ⟨h⟩
    rw [hcont.post] at h
    cases h
  · rintro ⟨⟩

/-- An iteration that goes on passes its node. -/
theorem passed_stepLog (hcont : Continues exec world g.toGraph intent s id node output)
    (log : List Event) : Passed (log ++ exec.stepLog world intent id node output s) id := by
  have hcharge : Event.charged id (.ok ()) ∈ exec.stepLog world intent id node output s := by
    rw [← hcont.charged]
    simp [stepLog, chargeLog]
  have hpost : Event.policy .postStep (some id) (postContext world intent id node output s)
      (exec.postDecision world intent id node output s) ∈
        exec.stepLog world intent id node output s := by
    simp [stepLog, postLog]
  exact ⟨List.mem_append_right _ hcharge, _, _, List.mem_append_right _ hpost, hcont.post⟩

/-! ## The loop -/

/-- What holds after the prefix `pre` of the order. -/
structure InOrder (pre : List NodeId) (s : RunState ρ) : Prop where
  outputs : ∀ x o, s.outputs.lookup x = some o ↔ Produced s.log x o
  finished : ∀ ev ∈ s.log, ∀ x, ev.Finishes x → x ∈ pre
  going : ∀ ev ∈ s.log, ¬ ev.Stops
  passed : ∀ x ∈ pre, Passed s.log x
  produced : ∀ x ∈ pre, ∃ o, Produced s.log x o

/-- One iteration keeps the order. -/
theorem InOrder.step (inv : InOrder pre s) (hnew : id ∉ pre)
    (hcont : Continues exec world g.toGraph intent s id node output) :
    InOrder (pre ++ [id]) (nextState exec world g.toGraph intent s id node output) := by
  have hprod : ∀ {x : NodeId} {o : NodeOutput},
      Produced (s.log ++ exec.stepLog world intent id node output s) x o ↔
        Produced s.log x o ∨ x = id ∧ o = output := by
    intro x o
    rw [produced_append, produced_stepLog hcont.ran]
  refine ⟨fun x o => ?_, fun ev hev x hf => ?_, fun ev hev => ?_, fun x hx => ?_, fun x hx => ?_⟩
  · rw [nextState, hprod]
    by_cases hx : x = id
    · subst hx
      -- `x` has yielded nothing before: it would have been visited
      have hnot : ¬ Produced s.log x o := by
        intro hp
        obtain ⟨ev, hev, hf⟩ := hp.finishes
        exact hnew (inv.finished ev hev x hf)
      rw [AList.lookup_insert, Option.some.injEq]
      simp [hnot, eq_comm]
    · rw [AList.lookup_insert_ne hx, inv.outputs]
      simp [hx]
  · rcases List.mem_append.mp hev with hev | hev
    · exact List.mem_append_left _ (inv.finished ev hev x hf)
    · rw [finishes_stepLog hev hf]
      exact List.mem_append_right _ (List.mem_singleton.mpr rfl)
  · rcases List.mem_append.mp hev with hev | hev
    · exact inv.going ev hev
    · exact not_stops_stepLog hcont hev
  · rcases List.mem_append.mp hx with hx | hx
    · exact (inv.passed x hx).append _
    · obtain rfl := List.mem_singleton.mp hx
      exact passed_stepLog hcont s.log
  · rcases List.mem_append.mp hx with hx | hx
    · obtain ⟨o, ho⟩ := inv.produced x hx
      exact ⟨o, hprod.mpr (Or.inl ho)⟩
    · exact ⟨output, hprod.mpr (Or.inr ⟨List.mem_singleton.mp hx, rfl⟩)⟩

theorem Reaches.inOrder (h : Reaches exec world g.toGraph intent pre s) :
    ∀ post, g.order = pre ++ post → InOrder pre s := by
  refine h.induction (I := fun pre s => ∀ post, g.order = pre ++ post → InOrder pre s) ?_ ?_
  · intro h₀ post _
    obtain ⟨-, -, hplan, -⟩ := reaches_nil_iff.mp h₀
    refine ⟨fun x o => ?_, fun ev hev x hf => ?_, fun ev hev => ?_, by simp, by simp⟩
    · simp [openedState, initial, Produced]
    · simp only [openedState, List.mem_cons, List.not_mem_nil, or_false] at hev
      rcases hev with rfl | rfl
      · cases hf
      · cases hf
    · simp only [openedState, List.mem_cons, List.not_mem_nil, or_false] at hev
      rcases hev with rfl | rfl
      · rintro ⟨h⟩
        rw [hplan] at h
        cases h
      · rintro ⟨⟩
  · intro pre s id node output hreach inv hcont post hsplit
    have hsplit' : g.order = pre ++ id :: post := by simpa using hsplit
    exact (inv _ hsplit').step (g.orderSpec.notMem_of_split hsplit') hcont

/-! ## The run -/

omit [TraceRecorder ρ] in
/-- Before an execution inside a node, the node's run has only executed leaves. -/
theorem leafRun_of_mem_before {b c : List Event} {ev ev' : Event}
    (heq : exec.runLog intent id node s = b ++ ev :: c) (hev' : ev' ∈ b) :
    ∃ l, ev' = .leafRun id s.outputs l := by
  rw [runLog] at heq
  by_cases hs : (exec.shadow && node.isWriteClass) = true
  · rw [if_pos hs] at heq
    rcases b with _ | ⟨e₀, b⟩
    · cases hev'
    · simp at heq
  rw [if_neg hs] at heq
  have hmem : ev' ∈ node.leaves.map (Event.leafRun id s.outputs) := by
    rcases List.eq_nil_or_concat c with rfl | ⟨c', z, rfl⟩
    · obtain ⟨h, -⟩ := List.append_inj' heq rfl
      rw [h]
      exact hev'
    · have heq' : node.leaves.map (Event.leafRun id s.outputs) ++
          [.nodeRun id s.outputs (node.run intent s.outputs)] = (b ++ ev :: c') ++ [z] := by
        simpa using heq
      obtain ⟨h, -⟩ := List.append_inj' heq' rfl
      rw [h]
      exact List.mem_append_left _ hev'
  obtain ⟨l, -, rfl⟩ := List.mem_map.mp hmem
  exact ⟨l, rfl⟩

omit [TraceRecorder ρ] in
/-- What a node's run executes is the node, on the outputs so far. -/
theorem eq_of_executes {ev : Event} {id' : NodeId} {prior : Outputs}
    (hmem : ev ∈ exec.runLog intent id node s) (hex : ev.Executes id' prior) :
    id' = id ∧ prior = s.outputs := by
  rcases mem_runLog hmem with ⟨-, rfl⟩ | ⟨-, ⟨l, -, rfl⟩ | rfl⟩
  · cases hex
  · cases hex
    exact ⟨rfl, rfl⟩
  · cases hex
    exact ⟨rfl, rfl⟩

omit [TraceRecorder ρ] in
/-- Up to an execution inside a node, its iteration adds its `PreStep` and some leaves. -/
theorem mem_block_before {b c : List Event} {ev ev' : Event}
    (heq : exec.runLog intent id node s = b ++ ev :: c)
    (hev' : ev' ∈ exec.preLog intent id node s ++ b) :
    ev' = .policy .preStep (some id) (preContext intent node s)
        (exec.preDecision intent node s) ∨ ∃ l, ev' = .leafRun id s.outputs l := by
  rcases List.mem_append.mp hev' with hev' | hev'
  · exact Or.inl (List.mem_singleton.mp hev')
  · exact Or.inr (leafRun_of_mem_before heq hev')

omit [TraceRecorder ρ] in
/-- Neither of them produces an output. -/
theorem produced_block_before {b c : List Event} {ev : Event}
    (heq : exec.runLog intent id node s = b ++ ev :: c) {log : List Event} {x : NodeId}
    {o : NodeOutput} :
    Produced (log ++ (exec.preLog intent id node s ++ b)) x o ↔ Produced log x o := by
  rw [produced_append, or_iff_left]
  rintro (⟨prior, hev'⟩ | hev')
  · rcases mem_block_before heq hev' with heq' | ⟨l, heq'⟩
    · cases heq'
    · cases heq'
  · rcases mem_block_before heq hev' with heq' | ⟨l, heq'⟩
    · cases heq'
    · cases heq'

/-- **Nodes are run in order.** Every execution of a node, or of a leaf inside it,
was due when it happened. -/
theorem runs_in_order (exec : GraphExecutor ρ) (world : World) (g : ValidGraph)
    (intent : IntentEnvelope) :
    Loop.Justified (fun before ev => ∀ id prior, ev.Executes id prior →
      Due exec.policy g.toGraph before id prior) (exec.run world g.toGraph intent).state.log := by
  intro before ev after hlog id prior hex
  rcases run_cases.origin _ _ _ hlog with hframe | ⟨pre, id', s, node, b, hto, rfl, hstep⟩
  · cases hex with
    | leaf => cases hframe
    | node => cases hframe
  obtain ⟨post, hsplit⟩ := hto.split
  have inv := hto.reach.inOrder _ hsplit
  have hnew := g.orderSpec.notMem_of_split hsplit
  cases hstep with
  | @run b c _ hpre heq =>
    -- the event is about the node the run has come to, on the outputs so far
    have hmem : ev ∈ exec.runLog intent id' node s := by
      rw [heq]
      exact List.mem_append_right _ (List.mem_cons_self ..)
    obtain ⟨rfl, rfl⟩ := eq_of_executes hmem hex
    refine ⟨⟨_, _, ?_, rfl, hpre⟩, fun ev' hev' hf => ?_, fun ev' hev' hstop => ?_,
      fun e he hto' => ?_, fun x o => ?_⟩
    · exact List.mem_append_right _ (List.mem_append_left _ (List.mem_singleton.mpr rfl))
    · rcases List.mem_append.mp hev' with hev' | hev'
      · exact hnew (inv.finished ev' hev' id hf)
      · rcases mem_block_before heq hev' with rfl | ⟨l, rfl⟩
        · cases hf
        · cases hf
    · rcases List.mem_append.mp hev' with hev' | hev'
      · exact inv.going ev' hev' hstop
      · rcases mem_block_before heq hev' with rfl | ⟨l, rfl⟩
        · cases hstop with
          | policy h =>
            rw [hpre] at h
            cases h
        · cases hstop
    · have hin := g.orderSpec.predecessor_mem pre id post hsplit e he hto'
      obtain ⟨o, ho⟩ := inv.produced _ hin
      exact ⟨o, (produced_block_before heq).mpr ho, (inv.passed _ hin).append _,
        (inv.outputs _ o).mpr ho⟩
    · rw [produced_block_before heq]
      exact inv.outputs x o
  | pre => cases hex
  | compensate => cases hex
  | charge => cases hex
  | post => cases hex
  | record => cases hex

end GraphExecutor

end Aaf
