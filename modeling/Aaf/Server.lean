import Aaf.GraphChain
import Aaf.Intent
import Aaf.MockChat
import Aaf.Planner
import Aaf.TraceRecord

/-!
# The reference server

`aaf-server run`: seed a registry from the configuration, compile the goal, plan it, turn the plan
into a chain of nodes, execute it with the default policy and read the trace.

The stages are those of the crates. Put together, some of what each of them may do does not
happen: the graph of a plan is always valid, no node fails, nothing is rolled back and the
trace is always there. What is left is `CmdRunEnd`, and `cmdRun_end` says that every run of the
server is one of these: it is refused by the registry, the compiler, the planner or the
policy, or its trace has a first part of the plan, and all of it when the run is complete.
-/

namespace Aaf

/-! ## Configuration -/

/-- One seeded capability. -/
structure CapabilitySeed where
  id : String
  name : String
  description : String
  domains : List String
  requiredScope : String
  sideEffect : String
  deterministic : Bool

/-- Budget block consumed by the demo runner. -/
structure BudgetSection where
  maxTokens : ℕ
  maxCostUsd : F64
  maxLatencyMs : ℕ

/-- Demo run block. -/
structure DemoConfig where
  goal : String
  domain : String
  role : String
  scopes : List String

/-- `ServerConfig`, less the project metadata, which is printed only. -/
structure ServerConfig where
  budget : BudgetSection
  capabilities : List CapabilitySeed
  demo : DemoConfig

/-- `ServerConfig::default`. -/
def ServerConfig.default : ServerConfig where
  budget := ⟨5000, .finite 1, 30000⟩
  capabilities := []
  demo := ⟨"show last month sales by region", "sales", "analyst", ["sales:read"]⟩

/-! ## Seeding -/

/-- `parse_side_effect`. -/
def parseSideEffect (s : String) : SideEffect :=
  match s with
  | "none" => .none
  | "write" => .write
  | "delete" => .delete
  | "send" => .send
  | "payment" => .payment
  | _ => .read

/-- `seed_to_capability`. -/
def seedToCapability (seed : CapabilitySeed) : CapabilityContract where
  id := ⟨seed.id⟩
  name := seed.name
  description := seed.description
  version := "1.0.0"
  providerAgent := "seed"
  endpoint := ⟨.inProcess, seed.id, none⟩
  inputSchema := .obj []
  outputSchema := .obj []
  sideEffect := parseSideEffect seed.sideEffect
  idempotent := true
  reversible := true
  deterministic := seed.deterministic
  compensation :=
    if (parseSideEffect seed.sideEffect).requiresCompensation then some (seed.id ++ "-compensate")
    else none
  sla := ⟨0, 0, 0⟩
  cost := ⟨0, ""⟩
  requiredScope := seed.requiredScope
  dataClassification := .internal
  degradation := []
  dependsOn := []
  conflictsWith := []
  tags := []
  domains := seed.domains
  reads := []
  writes := []
  emits := []
  entityScope := none
  requiredAttestationLevel := none
  reputation := .finite (1 / 2)
  learnedRules := []

/-- The seeds of a configuration, or the one that stands in for them. -/
def ServerConfig.seeds (cfg : ServerConfig) : List CapabilitySeed :=
  if cfg.capabilities.isEmpty then
    [⟨"cap-sales-monthly", "monthly sales report", "monthly sales report grouped by region",
      ["sales"], "sales:read", "read", true⟩]
  else cfg.capabilities

/-- One turn of the loop of `seed_registry`. -/
def seedOne (r : Registry) (seed : CapabilitySeed) : Except RegistryError Registry :=
  match r.register (seedToCapability seed) with
  | (.ok (), r) => .ok r
  | (.error e, _) => .error e

/-- `seed_registry`. -/
def seedRegistry (cfg : ServerConfig) : Except RegistryError Registry :=
  cfg.seeds.foldlM seedOne .inMemory

/-! ## The demo nodes -/

/-- What the server reads from outside. -/
structure ServerWorld where
  mint : Mint
  plannerMint : PlannerMint
  /-- the plug-ins of the intent compiler -/
  classifier : String → Option IntentType
  extractor : String → BTreeMap String Json
  /-- the orders in which the registry's store and the maps of the graph list their entries -/
  listOrder : ListOrder
  hash : HashOrder
  /-- the regular expressions of the default rules -/
  isMatch : String → String → Bool
  world : World
  /-- clock readings of the deterministic nodes, the services, the tools and the agents -/
  nodeElapsedMs : NodeId → ℕ
  serviceElapsedMs : MockWorld → ℕ
  toolElapsedMs : MockWorld → ℕ
  agentElapsedMs : MockWorld → ℕ
  /-- what an agent finds when it runs -/
  found : NodeId → Witnessed MockWorld

/-- The handler of `build_demo_executor` for a name. -/
def demoHandler (name : String) (input : Json) : Except String Json :=
  .ok (.obj [("service", .str name), ("status", .str "ok"), ("input_received", input)])

/-- The handlers of `build_demo_executor`. -/
def demoInvoker (caps : List CapabilityContract) : InProcessInvoker :=
  caps.foldl (fun inv cap => inv.register cap.name (demoHandler cap.name)) .new

/-- The provider of the demo agents. -/
def demoProvider : MockProvider := ⟨"mock", .finite (1 / 1000)⟩

/-- The agent of a planned step, before it gets its tools. -/
def demoAgent (w : ServerWorld) (id : NodeId) : AgentNode MockWorld :=
  .new id demoProvider.chat "You are an AAF agent. Use the tools provided to accomplish the goal."
    "mock-model" 1024 w.toolElapsedMs w.agentElapsedMs

/-- The tools of a planned step: the one of its capability. -/
def demoTools (r : Registry) (step : PlannedStep) : List ToolDefinition :=
  match r.get step.capability with
  | .ok cap => [.ofCapability cap]
  | .error _ => []

/-- The node of a planned step; its id is that of the capability. -/
def demoNode (w : ServerWorld) (r : Registry) (step : PlannedStep) : Node :=
  let id : NodeId := ⟨step.capability.raw⟩
  if step.kind = .agent then
    let exec : GoverningToolExecutor MockWorld :=
      ⟨(demoInvoker (r.list w.listOrder)).invoke w.serviceElapsedMs, r, w.listOrder,
        w.world.jsonToString⟩
    (exec.equip (demoAgent w id) (demoTools r step)).toNode (w.found id)
  else
    .deterministic id .read (w.nodeElapsedMs id) fun _ _ => .ok (.obj [("rows", .num (.finite 47))])

/-! ## The run -/

/-- What stops a run. -/
inductive ServerError : Type where
  | registry (e : RegistryError) : ServerError
  | intent (e : IntentError) : ServerError
  | planner (e : PlannerError) : ServerError
  | graph (e : GraphValidationError) : ServerError
  | runtime (e : RuntimeError) : ServerError
  | recorder (e : RecorderError) : ServerError
  /-- the validation of the graph would panic -/
  | panicked (fault : KahnFault) : ServerError

/-- What a run prints, of what is modelled. -/
inductive ServerOutcome : Type where
  | needsRefinement (questions : List ClarificationQuestion) : ServerOutcome
  | ran (plan : ExecutionPlan) (outcome : ExecutionOutcome) (trace : ExecutionTrace) :
    ServerOutcome

/-- The budget of the configuration. -/
def ServerConfig.contract (cfg : ServerConfig) : BudgetContract :=
  ⟨cfg.budget.maxTokens, cfg.budget.maxCostUsd, cfg.budget.maxLatencyMs⟩

/-- What is compiled. -/
def ServerConfig.compileArgs (cfg : ServerConfig) : CompileArgs :=
  ⟨cfg.demo.goal, ⟨"demo", cfg.demo.role, cfg.demo.scopes, none⟩, cfg.demo.domain, cfg.contract⟩

/-- The planner, its bounds taken from the configured budget. -/
def ServerConfig.planner (cfg : ServerConfig) : RegistryPlanner :=
  ⟨⟨10, 5, cfg.budget.maxCostUsd, cfg.budget.maxLatencyMs⟩, .default, none⟩

/-- Execution of a plan, and the trace that is read afterwards. -/
def executePlan (w : ServerWorld) (r : Registry) (intent : IntentEnvelope) (plan : ExecutionPlan) :
    Except ServerError ServerOutcome :=
  match (GraphBuilder.chain (plan.steps.map (demoNode w r))).build w.hash with
  | .error fault => .error (.panicked fault)
  | .ok (.error e) => .error (.graph e)
  | .ok (.ok g) =>
    let exec : GraphExecutor (Recorder InMemoryTraceStore) :=
      .new (.withDefaultRules w.isMatch) .inMemory intent.budget
    let exit := exec.run w.world g intent
    match exit.result with
    | .error e => .error (.runtime e)
    | .ok outcome =>
      match exit.state.recorder.get intent.traceId with
      | .error e => .error (.recorder e)
      | .ok trace => .ok (.ran plan outcome trace)

/-- `cmd_run`, with a configuration that is loaded. -/
def cmdRun (w : ServerWorld) (cfg : ServerConfig) : Except ServerError ServerOutcome :=
  match seedRegistry cfg with
  | .error e => .error (.registry e)
  | .ok r =>
    match ((IntentCompiler.fresh w.classifier w.extractor 0).compile w.mint cfg.compileArgs).1 with
    | .error e => .error (.intent e)
    | .ok (.needsRefinement questions) => .ok (.needsRefinement questions)
    | .ok (.compiled intent) =>
      match (cfg.planner.plan w.plannerMint r w.listOrder .new intent).1 with
      | .error e => .error (.planner e)
      | .ok plan => executePlan w r intent plan

/-! ## Graphs on which no node fails -/

namespace GraphExecutor

/-- What the outcome and the trace of a run say of the order of its graph. -/
structure Demonstrated (order : List NodeId) (outcome : ExecutionOutcome)
    (trace : ExecutionTrace) : Prop where
  status : trace.status = traceStatusOf (.ok outcome)
  steps : trace.steps.map (·.nodeId) <+: order
  complete : ∀ outputs n, outcome = .completed outputs n →
    n = order.length ∧ trace.steps.map (·.nodeId) = order
  notRolledBack : ∀ n reason compensated, outcome ≠ .rolledBack n reason compensated

variable {σ : Type} [ReliableStore σ] {exec : GraphExecutor (Recorder σ)} {world : World} {g : Graph}
  {intent : IntentEnvelope} {pre : List NodeId} {s : RunState (Recorder σ)}

/-- The outputs so far are those of the nodes so far. -/
theorem Reaches.yields_fst (h : Reaches exec world g intent pre s) :
    (yields s.log).map Prod.fst = pre := by
  refine h.induction (I := fun pre s => (yields s.log).map Prod.fst = pre) (fun _ => rfl) ?_
  intro pre s id node output _ ih hcont
  have hyields : yields (s.log ++ exec.stepLog world intent id node output s) =
      yields s.log ++ [(id, output)] := by
    simp only [stepLog, yields_append, yields_preLog, yields_of_ok hcont.ran, yields_chargeLog,
      yields_postLog, List.nil_append, List.append_nil]
    rfl
  rw [nextState, hyields, List.map_append, ih]
  rfl

/-- What is left of a run when its trace is read: the outcome, and the trace that goes with it. -/
def LeavesTrace (order : List NodeId) (intent : IntentEnvelope) (x : Exit (Recorder σ)) : Prop :=
  ∃ outcome trace, x.result = .ok outcome ∧ x.state.recorder.get intent.traceId = .ok trace ∧
    Demonstrated order outcome trace

/-- A run that is closed over the outputs of a first part of the order. -/
theorem leavesTrace_closeTrace {order : List NodeId} {t : RunState (Recorder σ)}
    {status : TraceStatus} {outcome : ExecutionOutcome} {outputs : List (NodeId × NodeOutput)}
    (hholds : Holds intent t.recorder .running outputs)
    (hopen : LawfulRecorder.IsOpen t.recorder intent.traceId)
    (hsteps : outputs.map Prod.fst <+: order)
    (hstatus : status = traceStatusOf (.ok outcome))
    (hcomplete : ∀ out n, outcome = .completed out n →
      n = order.length ∧ outputs.map Prod.fst = order)
    (hrolled : ∀ n reason ids, outcome ≠ .rolledBack n reason ids) :
    LeavesTrace order intent (closeTrace intent status t (.ok outcome)) := by
  obtain ⟨trace, hget, htrace, hrec⟩ := (hholds.close status).get
  refine ⟨outcome, trace, result_closeTrace hopen, ?_, htrace.trans hstatus, ?_, ?_, hrolled⟩
  · rw [closeTrace_recorder]
    exact hget
  · rw [hrec.nodes]
    exact hsteps
  · rw [hrec.nodes]
    exact hcomplete

/-- A run that waits for an approval, or is out of budget. -/
theorem leavesTrace_unfinished {order : List NodeId} {t : RunState (Recorder σ)}
    {outcome : ExecutionOutcome} {outputs : List (NodeId × NodeOutput)}
    (hholds : Holds intent t.recorder .running outputs)
    (hopen : LawfulRecorder.IsOpen t.recorder intent.traceId)
    (hsteps : outputs.map Prod.fst <+: order)
    (houtcome : (∃ out n d, outcome = .pendingApproval out n d) ∨
      ∃ out n e, outcome = .partialResult out n e) :
    LeavesTrace order intent (closeTrace intent .partialResult t (.ok outcome)) := by
  obtain ⟨out, n, d, rfl⟩ | ⟨out, n, e, rfl⟩ := houtcome
  · exact leavesTrace_closeTrace hholds hopen hsteps rfl (fun _ _ h => by cases h)
      fun _ _ _ h => by cases h
  · exact leavesTrace_closeTrace hholds hopen hsteps rfl (fun _ _ h => by cases h)
      fun _ _ _ h => by cases h

/-- **A run on which no node fails** is stopped by the policy, or leaves its trace. -/
theorem run_leavesTrace (exec : GraphExecutor (Recorder σ)) (world : World)
    (hrev : exec.revocation = none)
    (hnodes : ∀ id ∈ g.order, ∃ node, g.nodes.lookup id = some node ∧
      ∀ prior, ∃ out, node.run intent prior = .ok out) :
    (∃ vs, (exec.run world g intent).result = .error (.policyViolation vs)) ∨
      LeavesTrace g.order intent (exec.run world g intent) := by
  have hcase : RunCase exec world g intent (exec.run world g intent) := run_cases
  have hopened : (exec.openOf intent).1 = .ok () := (LawfulRecorder.open_ok _ _ _).1
  have hopen : LawfulRecorder.IsOpen (exec.openedState intent).recorder intent.traceId :=
    (LawfulRecorder.open_ok _ _ _).2
  generalize exec.run world g intent = x at hcase
  cases hcase with
  | revoked h =>
    rw [isRevoked, hrev] at h
    cases h
  | unopened _ h =>
    rw [hopened] at h
    cases h
  | planDenied => exact Or.inl ⟨_, result_closeTrace hopen⟩
  | planPaused =>
    exact Or.inr (leavesTrace_unfinished (holds_opened hopened) hopen List.nil_prefix
      (Or.inl ⟨_, _, _, rfl⟩))
  | @stoppedAt pre post id s x hsplit hreach hexit =>
    obtain ⟨node, hlookup, hruns⟩ := hnodes id (by rw [hsplit]; simp)
    have hprefix : (yields s.log).map Prod.fst <+: g.order := by
      rw [hreach.yields_fst, hsplit]
      exact List.prefix_append _ _
    cases hexit with
    | missing h =>
      rw [hlookup] at h
      cases h
    | preDenied => exact Or.inl ⟨_, result_closeTrace hreach.isOpen⟩
    | prePaused =>
      exact Or.inr (leavesTrace_unfinished hreach.holds.1 hreach.isOpen hprefix
        (Or.inl ⟨_, _, _, rfl⟩))
    | failed hfound _ hran =>
      obtain rfl := Option.some.inj (hlookup.symm.trans hfound)
      obtain ⟨out, hout⟩ := hruns s.outputs
      rw [outputOf, hout] at hran
      split at hran <;> cases hran
    | exhausted =>
      exact Or.inr (leavesTrace_unfinished hreach.holds.1 hreach.isOpen hprefix
        (Or.inr ⟨_, _, _, rfl⟩))
    | postDenied => exact Or.inl ⟨_, result_closeTrace hreach.isOpen⟩
    | postPaused =>
      exact Or.inr (leavesTrace_unfinished hreach.holds.1 hreach.isOpen hprefix
        (Or.inl ⟨_, _, _, rfl⟩))
    | unrecorded _ _ _ _ _ h =>
      rw [hreach.record_ok] at h
      cases h
  | artifactDenied hreach => exact Or.inl ⟨_, result_closeTrace hreach.isOpen⟩
  | artifactPaused hreach =>
    refine Or.inr (leavesTrace_unfinished hreach.holds.1 hreach.isOpen ?_ (Or.inl ⟨_, _, _, rfl⟩))
    rw [hreach.yields_fst]
  | completed hreach =>
    refine Or.inr (leavesTrace_closeTrace hreach.holds.1 hreach.isOpen ?_ rfl ?_
      fun _ _ _ h => by cases h)
    · rw [hreach.yields_fst]
    · rintro out n h
      cases h
      exact ⟨hreach.bookkeeping.step, hreach.yields_fst⟩

end GraphExecutor

/-! ## The stages of a run -/

variable {w : ServerWorld} {cfg : ServerConfig} {r : Registry} {intent : IntentEnvelope}

/-- Seeding registers. -/
theorem reachable_seedRegistry (h : seedRegistry cfg = .ok r) : r.Reachable := by
  refine Loop.foldlM_ok (I := fun _ r => Registry.Reachable r) .inMemory ?_ h
  intro _ seed r r' hr hseed
  have hnext := Registry.Reachable.register (seedToCapability seed) hr
  rw [seedOne] at hseed
  rcases hregister : r.register (seedToCapability seed) with ⟨result, next⟩
  rw [hregister] at hseed hnext
  cases result with
  | error e => cases hseed
  | ok u =>
    cases hseed
    exact hnext

/-- Every name of the registry has its handler. -/
theorem lookup_demoInvoker {caps : List CapabilityContract} {cap : CapabilityContract}
    (h : cap ∈ caps) : (demoInvoker caps).handlers.lookup cap.name = some (demoHandler cap.name) := by
  induction caps using List.reverseRecOn with
  | nil => cases h
  | append_singleton caps last ih =>
    rw [demoInvoker, List.foldl_append, List.foldl_cons, List.foldl_nil, ← demoInvoker,
      InProcessInvoker.register]
    by_cases hname : cap.name = last.name
    · rw [hname, AList.lookup_insert]
    · rw [AList.lookup_insert_ne hname]
      refine ih ((List.mem_append.mp h).resolve_right fun hlast => hname ?_)
      rw [List.mem_singleton.mp hlast]

/-- The tool of a stored capability is served. -/
theorem serves_demoInvoker (order : ListOrder) {id : CapabilityId} {cap : CapabilityContract}
    (h : r.lookup id = some cap) :
    (demoInvoker (r.list order)).Serves r order (ToolDefinition.ofCapability cap).name := by
  obtain ⟨found, hfind⟩ := Registry.findByName_of_mem order h
  have hhandler := lookup_demoInvoker ((Registry.mem_list order).mpr ⟨id, h⟩)
  exact ⟨found, demoHandler cap.name, hfind, hhandler, fun input => ⟨_, rfl⟩⟩

theorem id_demoNode (step : PlannedStep) : (demoNode w r step).id = ⟨step.capability.raw⟩ := by
  rw [demoNode]
  split <;> rfl

/-- **No demo node fails**: the agents stop at their limit, and the others are constant. -/
theorem demoNode_runs {step : PlannedStep} {cap : CapabilityContract}
    (h : r.lookup step.capability = some cap) (prior : Outputs) :
    ∃ out, (demoNode w r step).run intent prior = .ok out := by
  rw [demoNode]
  split
  · have htools : demoTools r step = [.ofCapability cap] := by
      rw [demoTools, Registry.get, h]
    obtain ⟨out, hrun, -, -⟩ := GoverningToolExecutor.mock_exhausts
      w.serviceElapsedMs w.world.jsonToString demoProvider (demoAgent w ⟨step.capability.raw⟩) []
      (serves_demoInvoker w.listOrder h) intent (w.found ⟨step.capability.raw⟩)
    rw [htools]
    exact ⟨out, hrun⟩
  · exact ⟨_, rfl⟩

/-- What a plan gives the server: at least one step, and stored capabilities, each once. -/
structure Runnable (r : Registry) (plan : ExecutionPlan) : Prop where
  nonempty : plan.steps ≠ []
  nodup : plan.ids.Nodup
  stored : ∀ step ∈ plan.steps, ∃ cap, r.lookup step.capability = some cap

/-- The first plan of a planner is runnable. -/
theorem runnable_plan {mint : PlannerMint} {planner : RegistryPlanner} {order : ListOrder}
    {plan : ExecutionPlan} (hr : r.Reachable)
    (h : (planner.plan mint r order .new intent).1 = .ok plan) : Runnable r plan := by
  rcases plan_eq_ok_iff.mp h with hget | ⟨-, haccepts, rfl⟩
  · cases hget
  · have hnodup := nodup_chosenFrom hr mint order intent
    have hperm := topoSort_perm hnodup
    have hids := planOf_ids mint Planning.new.minted intent (chosenFrom (hitsFor mint r order intent))
    refine ⟨fun hnil => ?_, ?_, fun step hstep => ?_⟩
    · have hlength := hperm.length_eq
      rw [← planOf_length mint Planning.new.minted intent, hnil] at hlength
      cases hhits : hitsFor mint r order intent with
      | nil => exact haccepts.found hhits
      | cons top rest =>
        rw [hhits] at hlength
        cases hlength
    · rw [hids]
      exact (hperm.map _).nodup_iff.mpr hnodup
    · have hmem : step.capability ∈ (topoSort (chosenFrom (hitsFor mint r order intent))).map
          CapabilityContract.id := by
        rw [← hids]
        exact List.mem_map_of_mem hstep
      obtain ⟨cap, hcap, hid⟩ := List.mem_map.mp hmem
      rw [← hid]
      exact ⟨cap, stored_chosenFrom hr cap (hperm.mem_iff.mp hcap)⟩

/-- The nodes of a plan, in its order. -/
def ExecutionPlan.nodeIds (plan : ExecutionPlan) : List NodeId :=
  plan.ids.map fun id => ⟨id.raw⟩

theorem Runnable.nodup_nodeIds {plan : ExecutionPlan} (h : Runnable r plan) :
    plan.nodeIds.Nodup := by
  refine h.nodup.map fun id id' heq => ?_
  cases id
  cases id'
  exact congrArg CapabilityId.mk (congrArg NodeId.raw heq)

/-! ## Every run -/

/-- How a run of the server ends. -/
inductive CmdRunEnd : Except ServerError ServerOutcome → Prop
  | notSeeded (e : RegistryError) : CmdRunEnd (.error (.registry e))
  | notCompiled (e : IntentError) : CmdRunEnd (.error (.intent e))
  | asked (questions : List ClarificationQuestion) : CmdRunEnd (.ok (.needsRefinement questions))
  | notPlanned (e : PlannerError) : CmdRunEnd (.error (.planner e))
  | denied (vs : List PolicyViolation) : CmdRunEnd (.error (.runtime (.policyViolation vs)))
  | ran {plan : ExecutionPlan} {outcome : ExecutionOutcome} {trace : ExecutionTrace}
      (h : GraphExecutor.Demonstrated plan.nodeIds outcome trace) :
      CmdRunEnd (.ok (.ran plan outcome trace))

/-- A runnable plan is executed. -/
theorem executePlan_end {plan : ExecutionPlan} (h : Runnable r plan) :
    CmdRunEnd (executePlan w r intent plan) := by
  have hids : (plan.steps.map (demoNode w r)).map Node.id = plan.nodeIds := by
    rw [List.map_map, ExecutionPlan.nodeIds, ExecutionPlan.ids, List.map_map]
    exact List.map_congr_left fun step _ => id_demoNode step
  have hne : plan.steps.map (demoNode w r) ≠ [] := by simpa using h.nonempty
  obtain ⟨g, hbuild, horder, -, hlookup⟩ := GraphBuilder.chain_build w.hash hne
    (hids ▸ h.nodup_nodeIds)
  have hnodes : ∀ id ∈ g.order, ∃ node, g.nodes.lookup id = some node ∧
      ∀ prior, ∃ out, node.run intent prior = .ok out := by
    intro id hid
    rw [horder, List.map_map] at hid
    obtain ⟨step, hstep, rfl⟩ := List.mem_map.mp hid
    obtain ⟨cap, hcap⟩ := h.stored step hstep
    exact ⟨_, hlookup _ (List.mem_map_of_mem hstep), demoNode_runs hcap⟩
  rw [executePlan, hbuild]
  dsimp only
  rcases GraphExecutor.run_leavesTrace
    (.new (.withDefaultRules w.isMatch) Recorder.inMemory intent.budget) w.world rfl hnodes with
    ⟨vs, hresult⟩ | ⟨outcome, trace, hresult, hget, hdone⟩
  · rw [hresult]
    exact .denied vs
  · rw [hresult]
    dsimp only
    rw [hget]
    rw [horder, hids] at hdone
    exact .ran hdone

/-- **The server.** In every world and with every configuration, a run of the server ends in one
of these ways: no graph of a plan is refused, no node fails, nothing is rolled back, and the trace
that is printed has the steps of the plan in their order, all of them when the run completes. -/
theorem cmdRun_end (w : ServerWorld) (cfg : ServerConfig) : CmdRunEnd (cmdRun w cfg) := by
  rw [cmdRun]
  rcases hseed : seedRegistry cfg with e | r
  · exact .notSeeded e
  dsimp only
  rcases ((IntentCompiler.fresh w.classifier w.extractor 0).compile w.mint cfg.compileArgs).1 with
    e | (intent | questions)
  · exact .notCompiled e
  · dsimp only
    rcases hplan : (cfg.planner.plan w.plannerMint r w.listOrder .new intent).1 with e | plan
    · exact .notPlanned e
    · exact executePlan_end (runnable_plan (reachable_seedRegistry hseed) hplan)
  · exact .asked questions

end Aaf
