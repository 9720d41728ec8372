import Mathlib.Data.Finset.Card
import Aaf.Batches
import Aaf.ExecutorRun

/-!
# The fast-path miner

`FastPathMiner::on_observation` gathers the successful observations that look like agent steps
under their agent and node, and proposes a learned rule when there are `threshold` of them from
`min_distinct_sessions` traces. Then it starts over.

The miner keeps intent ids and sessions only. `mine_represents` says which observations they
come from: the miner is a run of `Batches.collect`, and every proposal is a batch that went out.

Whether a step is an agent step is read from the text of its reasoning, which also holds the id
of the node: `agent_steps_counted_iff` says when that goes wrong.

The timestamps of a learned rule are left out.
-/

namespace Aaf

/-- Approval state of a learned rule (Rule 18). -/
inductive LearnedApprovalState : Type where
  | proposed : LearnedApprovalState
  | approved : LearnedApprovalState
  | rejected : LearnedApprovalState
  | rolledBack : LearnedApprovalState
  deriving DecidableEq, Repr

/-- One learned rule. -/
structure LearnedRule where
  id : String
  source : LearnedSource
  evidence : List IntentId
  approvalState : LearnedApprovalState
  scope : String
  deriving DecidableEq, Repr

/-- `LearnedRule::propose`. -/
def LearnedRule.propose (id : String) (source : LearnedSource) (evidence : List IntentId)
    (scope : String) : LearnedRule where
  id := id
  source := source
  evidence := evidence
  approvalState := .proposed
  scope := scope

/-- Key used to group observations into a pattern. -/
structure PatternKey where
  intentType : String
  domain : String
  constraintKeys : List String
  deriving DecidableEq, Repr

/-- The key of an observation: its agent stands for the domain and its node for the
constraints. -/
def PatternKey.of (obs : Observation) : PatternKey :=
  ⟨"AgentAssisted", obs.agent.raw, [obs.nodeId.raw]⟩

theorem PatternKey.of_inj {obs obs' : Observation} :
    PatternKey.of obs = PatternKey.of obs' ↔
      obs.agent = obs'.agent ∧ obs.nodeId = obs'.nodeId := by
  rcases obs with ⟨_, ⟨node⟩, _, ⟨agent⟩⟩
  rcases obs' with ⟨_, ⟨node'⟩, _, ⟨agent'⟩⟩
  simp [PatternKey.of]

/-- Evidence for one pattern. -/
structure PatternEvidence where
  intentIds : List IntentId
  sessions : Finset String
  deriving DecidableEq

namespace PatternEvidence

/-- No evidence: a new entry, and one whose lists were cleared. -/
def empty : PatternEvidence := ⟨[], ∅⟩

/-- One more observation, under the id of its trace. -/
def add (evidence : PatternEvidence) (obs : Observation) : PatternEvidence where
  intentIds := evidence.intentIds ++ [⟨obs.traceId.raw⟩]
  sessions := insert obs.traceId.raw evidence.sessions

/-- The id of the rule that is proposed from the evidence. -/
def ruleId (evidence : PatternEvidence) : String :=
  "lr-fp-" ++ toString evidence.intentIds.length ++ "-" ++ toString evidence.sessions.card

/-- The rule that is proposed from the evidence. The source takes the first intent id as the
scope; there is one, since the evidence holds the observation that just came. -/
def rule (evidence : PatternEvidence) : LearnedRule :=
  LearnedRule.propose evidence.ruleId .miner evidence.intentIds
    ((evidence.intentIds.head?.map IntentId.raw).getD "")

end PatternEvidence

/-- Miner configuration. -/
structure MinerConfig where
  threshold : ℕ
  minDistinctSessions : ℕ
  deriving DecidableEq, Repr

/-- Fast-path miner subscriber. -/
structure FastPathMiner where
  config : MinerConfig
  patterns : HashMap PatternKey PatternEvidence
  proposals : List LearnedRule

/-- What the miner looks at: a successful outcome, and a reasoning that names an agent. -/
def Observation.qualifies (obs : Observation) : Bool :=
  (match obs.outcomeDetail with
    | some outcome => decide (outcome.status = .succeeded)
    | none => false) && Text.contains obs.reasoning "Agent"

namespace FastPathMiner

/-- `FastPathMiner::new`. -/
def new (config : MinerConfig) : FastPathMiner := ⟨config, ∅, []⟩

/-- The evidence under a key, an empty entry if there is none. -/
def evidence (m : FastPathMiner) (key : PatternKey) : PatternEvidence :=
  (m.patterns.lookup key).getD PatternEvidence.empty

/-- The pattern is mature enough to propose. -/
def mature (config : MinerConfig) (evidence : PatternEvidence) : Bool :=
  decide (config.threshold ≤ evidence.intentIds.length) &&
    decide (config.minDistinctSessions ≤ evidence.sessions.card)

/-- `FastPathMiner::on_observation`. -/
def onObservation (m : FastPathMiner) (obs : Observation) : FastPathMiner :=
  if obs.qualifies then
    let key := PatternKey.of obs
    let evidence := (m.evidence key).add obs
    if mature m.config evidence then
      { m with
        patterns := m.patterns.insert key PatternEvidence.empty
        proposals := m.proposals ++ [evidence.rule] }
    else { m with patterns := m.patterns.insert key evidence }
  else m

/-- A new miner is shown the observations one after another. -/
def mine (config : MinerConfig) (observations : List Observation) : FastPathMiner :=
  observations.foldl onObservation (new config)

/-- What an observation can do: nothing, a proposal, or one more piece of evidence. -/
theorem onObservation_cases (m : FastPathMiner) (obs : Observation) :
    (obs.qualifies = false ∧ m.onObservation obs = m) ∨
      (obs.qualifies = true ∧ mature m.config ((m.evidence (PatternKey.of obs)).add obs) = true ∧
        m.onObservation obs = { m with
          patterns := m.patterns.insert (PatternKey.of obs) PatternEvidence.empty
          proposals := m.proposals ++ [((m.evidence (PatternKey.of obs)).add obs).rule] }) ∨
      (obs.qualifies = true ∧ mature m.config ((m.evidence (PatternKey.of obs)).add obs) = false ∧
        m.onObservation obs = { m with
          patterns := m.patterns.insert (PatternKey.of obs)
            ((m.evidence (PatternKey.of obs)).add obs) }) := by
  rw [onObservation]
  by_cases hqualifies : obs.qualifies = true
  · rw [if_pos hqualifies]
    by_cases hmature : mature m.config ((m.evidence (PatternKey.of obs)).add obs) = true
    · exact Or.inr (Or.inl ⟨hqualifies, hmature, if_pos hmature⟩)
    · exact Or.inr (Or.inr ⟨hqualifies, Bool.not_eq_true _ ▸ hmature, if_neg hmature⟩)
  · rw [if_neg hqualifies]
    exact Or.inl ⟨Bool.not_eq_true _ ▸ hqualifies, rfl⟩

/-- Only the evidence of one pattern is written. -/
theorem evidence_insert (m : FastPathMiner) (key : PatternKey) (e : PatternEvidence)
    (rules : List LearnedRule) :
    evidence { m with patterns := m.patterns.insert key e, proposals := rules } =
      Function.update m.evidence key e := by
  funext key'
  by_cases h : key' = key
  · subst h
    simp [evidence, AList.lookup_insert]
  · rw [Function.update_of_ne h, evidence, AList.lookup_insert_ne h, evidence]

/-! ### The observations behind the evidence -/

/-- The pattern an observation counts for. -/
def patternOf (obs : Observation) : Option PatternKey :=
  if obs.qualifies then some (PatternKey.of obs) else none

/-- How many traces the observations come from. -/
def distinctTraces (batch : List Observation) : ℕ := (batch.map Observation.traceId).toFinset.card

/-- The observations are enough for a proposal. -/
def enough (config : MinerConfig) (batch : List Observation) : Bool :=
  decide (config.threshold ≤ batch.length) &&
    decide (config.minDistinctSessions ≤ distinctTraces batch)

/-- The evidence that observations leave behind. -/
def evidenceOf (batch : List Observation) : PatternEvidence :=
  batch.foldl PatternEvidence.add PatternEvidence.empty

/-- The rule that observations are proposed as. -/
def ruleOf (batch : List Observation) : LearnedRule := (evidenceOf batch).rule

theorem evidenceOf_concat (batch : List Observation) (obs : Observation) :
    evidenceOf (batch ++ [obs]) = (evidenceOf batch).add obs := by
  rw [evidenceOf, List.foldl_append, List.foldl_cons, List.foldl_nil, ← evidenceOf]

theorem intentIds_evidenceOf (batch : List Observation) :
    (evidenceOf batch).intentIds = batch.map fun obs => ⟨obs.traceId.raw⟩ := by
  induction batch using List.reverseRecOn with
  | nil => rfl
  | append_singleton batch obs ih =>
    rw [evidenceOf_concat, PatternEvidence.add, ih, List.map_append, List.map_singleton]

theorem sessions_evidenceOf (batch : List Observation) :
    (evidenceOf batch).sessions =
      (batch.map Observation.traceId).toFinset.image TraceId.raw := by
  induction batch using List.reverseRecOn with
  | nil => rfl
  | append_singleton batch obs ih =>
    rw [evidenceOf_concat, PatternEvidence.add, ih, List.map_append, List.toFinset_append]
    rw [List.map_singleton, List.toFinset_cons, List.toFinset_nil, insert_empty_eq,
      Finset.union_comm, Finset.image_union, Finset.image_singleton, Finset.singleton_union]

theorem card_sessions_evidenceOf (batch : List Observation) :
    (evidenceOf batch).sessions.card = distinctTraces batch := by
  rw [sessions_evidenceOf, Finset.card_image_of_injective, distinctTraces]
  rintro ⟨id⟩ ⟨id'⟩ rfl
  rfl

theorem mature_evidenceOf (config : MinerConfig) (batch : List Observation) :
    mature config (evidenceOf batch) = enough config batch := by
  rw [mature, enough, card_sessions_evidenceOf, intentIds_evidenceOf, List.length_map]

/-- The observations so far, sorted as the miner sorts them. -/
def sorted (config : MinerConfig) (observations : List Observation) :
    Batches.Sorted Observation PatternKey :=
  Batches.collect patternOf (enough config) observations

/-- The batches that were proposed. -/
def batches (config : MinerConfig) (observations : List Observation) :
    List (PatternKey × List Observation) := (sorted config observations).batches

/-- The observations of a pattern that were not proposed yet. -/
def unspent (config : MinerConfig) (observations : List Observation) (key : PatternKey) :
    List Observation := (sorted config observations).kept key

/-- The miner holds the evidence of what is kept, and proposed what went out. -/
structure Represents (m : FastPathMiner) (config : MinerConfig)
    (s : Batches.Sorted Observation PatternKey) : Prop where
  config_eq : m.config = config
  evidence_eq : m.evidence = fun key => evidenceOf (s.kept key)
  proposals_eq : m.proposals = s.batches.map fun batch => ruleOf batch.2

theorem Represents.onObservation {m : FastPathMiner} {config : MinerConfig}
    {s : Batches.Sorted Observation PatternKey} (h : m.Represents config s) (obs : Observation) :
    (m.onObservation obs).Represents config (Batches.push patternOf (enough config) s obs) := by
  obtain ⟨rfl, hevidence, hproposals⟩ := h
  have hadd : (m.evidence (PatternKey.of obs)).add obs =
      evidenceOf (s.kept (PatternKey.of obs) ++ [obs]) := by
    rw [evidenceOf_concat, hevidence]
  have hkept : ∀ batch, Function.update m.evidence (PatternKey.of obs) (evidenceOf batch) =
      fun key => evidenceOf (Function.update s.kept (PatternKey.of obs) batch key) := by
    intro batch
    rw [hevidence]
    exact (Function.comp_update evidenceOf s.kept (PatternKey.of obs) batch).symm
  have hcases := m.onObservation_cases obs
  rw [hadd, mature_evidenceOf] at hcases
  rcases hcases with ⟨hqualifies, heq⟩ | ⟨hqualifies, henough, heq⟩ | ⟨hqualifies, henough, heq⟩
  · rw [heq, Batches.push, patternOf, hqualifies]
    exact ⟨rfl, hevidence, hproposals⟩
  · rw [heq, Batches.push, patternOf, hqualifies, if_pos rfl]
    dsimp only
    rw [if_pos henough]
    refine ⟨rfl, (evidence_insert ..).trans (hkept []), ?_⟩
    rw [hproposals, List.map_append, List.map_singleton, ruleOf]
  · rw [heq, Batches.push, patternOf, hqualifies, if_pos rfl]
    dsimp only
    rw [henough, if_neg Bool.false_ne_true]
    exact ⟨rfl, (evidence_insert ..).trans (hkept _), hproposals⟩

theorem mine_concat (config : MinerConfig) (observations : List Observation) (obs : Observation) :
    mine config (observations ++ [obs]) = (mine config observations).onObservation obs := by
  rw [mine, List.foldl_append, List.foldl_cons, List.foldl_nil, ← mine]

/-- **The miner is a run of `Batches.collect`.** -/
theorem mine_represents (config : MinerConfig) (observations : List Observation) :
    (mine config observations).Represents config (sorted config observations) := by
  induction observations using List.reverseRecOn with
  | nil => exact ⟨rfl, rfl, rfl⟩
  | append_singleton observations obs ih =>
    rw [mine_concat, sorted, Batches.collect_concat]
    exact ih.onObservation obs

/-- What carries a proposal: enough qualifying observations of one agent and node, from enough
traces. -/
structure Backs (config : MinerConfig) (batch : List Observation) : Prop where
  threshold_le : config.threshold ≤ batch.length
  qualifies : ∀ obs ∈ batch, obs.qualifies = true
  onePattern : ∀ obs ∈ batch, ∀ obs' ∈ batch, obs.agent = obs'.agent ∧ obs.nodeId = obs'.nodeId
  minDistinctSessions_le : config.minDistinctSessions ≤ distinctTraces batch

theorem patternOf_eq_some_iff {obs : Observation} {key : PatternKey} :
    patternOf obs = some key ↔ obs.qualifies = true ∧ PatternKey.of obs = key := by
  rw [patternOf]
  by_cases h : obs.qualifies = true <;> simp [h]

theorem enough_iff {config : MinerConfig} {batch : List Observation} :
    enough config batch = true ↔
      config.threshold ≤ batch.length ∧ config.minDistinctSessions ≤ distinctTraces batch := by
  simp [enough]

theorem backs_of_mem {config : MinerConfig} {observations : List Observation}
    {batch : PatternKey × List Observation} (h : batch ∈ batches config observations) :
    Backs config batch.2 := by
  obtain ⟨henough, hpattern⟩ := Batches.batch_enough h
  obtain ⟨hlength, hdistinct⟩ := enough_iff.mp henough
  refine ⟨hlength, fun obs hobs => (patternOf_eq_some_iff.mp (hpattern obs hobs)).1, ?_, hdistinct⟩
  intro obs hobs obs' hobs'
  have hkey := (patternOf_eq_some_iff.mp (hpattern obs hobs)).2
  have hkey' := (patternOf_eq_some_iff.mp (hpattern obs' hobs')).2
  exact PatternKey.of_inj.mp (hkey.trans hkey'.symm)

/-- Too few traces: the pattern of the observation is not proposed. -/
theorem batches_of_few_traces {config : MinerConfig} {observations : List Observation}
    {obs : Observation} (h : distinctTraces
      (unspent config observations (PatternKey.of obs) ++ [obs]) < config.minDistinctSessions) :
    batches config (observations ++ [obs]) = batches config observations := by
  rcases @Batches.batches_concat _ _ _ patternOf (enough config) observations obs with
    hsame | ⟨key, hkey, henough, -⟩
  · exact hsame
  · obtain rfl := (patternOf_eq_some_iff.mp hkey).2
    exact absurd (enough_iff.mp henough).2 (Nat.not_le.mpr h)

/-- **Proposals are backed by diverse evidence.** The evidence of the proposals are the traces of
batches of observations, and every batch carries its proposal. The batches of a pattern, one
after another, and what is unspent of it are all its observations: none is in two batches. While
the unspent observations come from too few traces, nothing is proposed. -/
theorem proposals_backed (config : MinerConfig) (observations : List Observation) :
    (mine config observations).proposals.map LearnedRule.evidence =
        (batches config observations).map (fun batch => batch.2.map fun obs => ⟨obs.traceId.raw⟩) ∧
      (∀ batch ∈ batches config observations, Backs config batch.2) ∧
      (∀ key, Batches.sent key (batches config observations) ++ unspent config observations key =
        Batches.ofKey patternOf key observations) ∧
      ∀ obs, distinctTraces (unspent config observations (PatternKey.of obs) ++ [obs]) <
          config.minDistinctSessions →
        (mine config (observations ++ [obs])).proposals =
          (mine config observations).proposals := by
  refine ⟨?_, fun batch hbatch => backs_of_mem hbatch,
    fun key => Batches.sent_append_kept observations key, ?_⟩
  · rw [(mine_represents config observations).proposals_eq, List.map_map]
    refine List.map_congr_left fun batch _ => ?_
    exact intentIds_evidenceOf batch.2
  · intro obs hfew
    have hsame := batches_of_few_traces hfew
    rw [(mine_represents config (observations ++ [obs])).proposals_eq,
      (mine_represents config observations).proposals_eq]
    exact congrArg _ hsame

/-! ### What counts as an agent step -/

/-- The observation is added to the evidence of its pattern, or is the last evidence of a
proposal. -/
def Adds (m : FastPathMiner) (obs : Observation) : Prop :=
  ((m.onObservation obs).evidence (PatternKey.of obs) = (m.evidence (PatternKey.of obs)).add obs ∧
      (m.onObservation obs).proposals = m.proposals) ∨
    (m.onObservation obs).proposals =
      m.proposals ++ [((m.evidence (PatternKey.of obs)).add obs).rule]

theorem adds_iff (m : FastPathMiner) (obs : Observation) :
    m.Adds obs ↔ obs.qualifies = true := by
  rcases m.onObservation_cases obs with ⟨hqualifies, heq⟩ | ⟨hqualifies, -, heq⟩ |
    ⟨hqualifies, -, heq⟩
  · rw [Adds, heq, hqualifies]
    refine ⟨?_, fun h => (by cases h)⟩
    rintro (⟨hsame, -⟩ | hsame)
    · have hlength := congrArg (fun e => e.intentIds.length) hsame
      simp [PatternEvidence.add] at hlength
    · have hlength := congrArg List.length hsame
      simp at hlength
  · exact iff_of_true (Or.inr (by rw [heq])) hqualifies
  · refine iff_of_true (Or.inl ⟨?_, by rw [heq]⟩) hqualifies
    rw [heq, evidence_insert, Function.update_self]

/-- The reasoning of a step has five blanks around the id of its node, and "Agent" has none: it
is in the id or in the kind. -/
theorem contains_reasoning (id : NodeId) (kind : NodeKind) :
    Text.contains ("ran node " ++ id.raw ++ " of kind " ++ kind.debug) "Agent" = true ↔
      Text.contains id.raw "Agent" = true ∨ kind = .agent := by
  have hblanks : ("ran node " ++ id.raw ++ " of kind " ++ kind.debug).toList =
      "ran".toList ++ ' ' :: ("node".toList ++ ' ' :: (id.raw.toList ++ ' ' ::
        ("of".toList ++ ' ' :: ("kind".toList ++ ' ' :: kind.debug.toList)))) := by
    simp
  have hkind : "Agent".toList <:+: kind.debug.toList ↔ kind = .agent := by
    cases kind <;> decide
  have hcut : ∀ front back : List Char, "Agent".toList <:+: front ++ ' ' :: back ↔
      "Agent".toList <:+: front ∨ "Agent".toList <:+: back :=
    fun _ _ => Text.infix_append_cons_iff (by decide) (by decide)
  have hran : ¬ "Agent".toList <:+: "ran".toList := by decide
  have hnode : ¬ "Agent".toList <:+: "node".toList := by decide
  have hof : ¬ "Agent".toList <:+: "of".toList := by decide
  have hkindWord : ¬ "Agent".toList <:+: "kind".toList := by decide
  rw [Text.contains_iff, hblanks, hcut, hcut, hcut, hcut, hcut, hkind, Text.contains_iff]
  simp only [hran, hnode, hof, hkindWord, false_or]

/-- The observation of a step is looked at when its node is an agent, or is named like one. -/
theorem qualifies_observationOf (intent : IntentEnvelope) (id : NodeId) (node : Node)
    (output : NodeOutput) (step : ℕ) :
    (GraphExecutor.observationOf intent id node output step).qualifies = true ↔
      Text.contains id.raw "Agent" = true ∨ node.kind = .agent := by
  rw [← contains_reasoning, Observation.qualifies, GraphExecutor.observationOf]
  simp

/-- The steps that were recorded. -/
def recordedSteps (log : List Event) : List TraceStep :=
  log.filterMap fun
    | .recorded step (.ok ()) => some step
    | _ => none

theorem mem_of_mem_recordedSteps {log : List Event} {step : TraceStep}
    (h : step ∈ recordedSteps log) : Event.recorded step (.ok ()) ∈ log := by
  obtain ⟨ev, hev, heq⟩ := List.mem_filterMap.mp h
  split at heq
  · cases heq
    exact hev
  · cases heq

variable {ρ : Type} [TraceRecorder ρ]

/-- **Agent steps are counted, and others whose node is named like one.** The observation of a
recorded step is counted exactly if its node is an agent, as long as the node is one or its id
does not hold the word. -/
theorem agent_steps_counted_iff (m : FastPathMiner) (exec : GraphExecutor ρ) (world : World)
    (g : Graph) (intent : IntentEnvelope) (step : TraceStep)
    (h : step ∈ recordedSteps (exec.run world g intent).state.log) :
    ∃ node, g.nodes.lookup step.nodeId = some node ∧
      ((m.Adds step.observation ↔ node.kind = .agent) ↔
        (node.kind = .agent ∨ Text.contains step.nodeId.raw "Agent" = false)) := by
  obtain ⟨pre, id, s, node, output, hto, -, rfl⟩ := GraphExecutor.comesTo_of_recorded
    (mem_of_mem_recordedSteps h)
  have hcounts := (m.adds_iff _).trans (qualifies_observationOf intent id node output (s.step + 1))
  refine ⟨node, hto.found, ?_⟩
  change (m.Adds (GraphExecutor.observationOf intent id node output (s.step + 1)) ↔ _) ↔
    (_ ∨ Text.contains id.raw "Agent" = false)
  rw [hcounts]
  by_cases hagent : node.kind = .agent
  · simp [hagent]
  · simp [hagent]

namespace SampleLookup

/-- A node that looks agents up, and is none. -/
def lookup : NodeId := ⟨"AgentLookup"⟩

/-- The graph of that node. -/
def graph : ValidGraph where
  nodes := AList.singleton lookup (Sample.okNode lookup .read)
  edges := []
  order := [lookup]
  compensators := ∅
  validated := ⟨⟨fun l => l, fun _ => .refl _⟩,
    AList.singleton lookup (Sample.okNode lookup .read), [], ∅, by rfl⟩

def log : List Event :=
  ((Sample.executor []).run Sample.world graph.toGraph Sample.intent).state.log

/-- The step that is recorded of it. -/
def step : TraceStep :=
  GraphExecutor.traceStepOf Sample.intent lookup (Sample.okNode lookup .read)
    ⟨.null, 0, .finite 0, 0, none⟩ 1

theorem step_mem : step ∈ recordedSteps log := by decide +kernel

end SampleLookup

theorem agent_steps_counted_iff_lookup :
    SampleLookup.step ∈ recordedSteps SampleLookup.log ∧
      ∃ node, SampleLookup.graph.nodes.lookup SampleLookup.lookup = some node ∧
        (((new ⟨10, 3⟩).Adds SampleLookup.step.observation ↔ node.kind = .agent) ↔
          (node.kind = .agent ∨ Text.contains "AgentLookup" "Agent" = false)) :=
  ⟨SampleLookup.step_mem, agent_steps_counted_iff (new ⟨10, 3⟩) (Sample.executor []) Sample.world
    SampleLookup.graph.toGraph Sample.intent SampleLookup.step SampleLookup.step_mem⟩

/-- The step of a deterministic node is counted: the id of the node holds the word. -/
theorem deterministic_step_counted :
    SampleLookup.step ∈ recordedSteps SampleLookup.log ∧
      SampleLookup.step.observation.outcomeDetail.map Outcome.status = some .succeeded ∧
      (SampleLookup.graph.nodes.lookup SampleLookup.step.nodeId).map Node.kind =
        some .deterministic ∧
      (new ⟨10, 3⟩).Adds SampleLookup.step.observation := by
  refine ⟨SampleLookup.step_mem, by decide, by decide, ?_⟩
  rw [adds_iff]
  decide

end FastPathMiner

end Aaf
