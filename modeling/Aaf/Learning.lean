import Aaf.ExecutionPlan
import Aaf.ExecutorRun
import Aaf.FastPathMiner
import Aaf.TraceHistory

/-!
# Learning from runs

The subscribers of `aaf-learn` beside the miner: `RouterTuner`, `EscalationTuner` and
`CapabilityScorer`, each a table it adds every observation to, and the routing policies of
`aaf-llm` that such a table is meant for.

The executor is all that records observations, and it records those of nodes that succeeded,
under the agent `runtime`. So however many runs the subscribers have followed, and in whatever
order they were told: nothing was escalated, no score but one has moved, and that one up
(`runs_teach_success`). The tuner's keys are outcomes where the routing policy looks for risk
tiers, so that no table of it overrides anything (`overrides_inert`).

The counters are `u64`, taken as unbounded. A score is an `f32`, up to rounding.
-/

namespace Aaf

/-! ## The router tuner -/

/-- The `Debug` rendering. -/
def StepOutcome.debug : StepOutcome → String
  | success => "Success"
  | failure => "Failure"
  | skipped => "Skipped"
  | compensated => "Compensated"
  | pending => "Pending"

/-- `BucketStats`. -/
structure BucketStats where
  count : ℕ
  totalCost : F64
  successes : ℕ
  deriving DecidableEq, Repr

namespace BucketStats

/-- `BucketStats::success_rate`. -/
def successRate (b : BucketStats) : F64 :=
  if b.count = 0 then 0 else .finite b.successes / .finite b.count

/-- `BucketStats::avg_cost`. -/
def avgCost (b : BucketStats) : F64 :=
  if b.count = 0 then 0 else b.totalCost / .finite b.count

/-- One more outcome. -/
def add (b : BucketStats) (outcome : Outcome) : BucketStats where
  count := b.count + 1
  totalCost := b.totalCost + outcome.costUsd
  successes := if outcome.status = .succeeded then b.successes + 1 else b.successes

end BucketStats

/-- `RouterTuner`. -/
structure RouterTuner where
  buckets : HashMap (String × String) BucketStats

namespace RouterTuner

/-- `RouterTuner::new`. -/
def new : RouterTuner := ⟨∅⟩

/-- The key of an observation: its agent, for the intent type, and its outcome. -/
def keyOf (obs : Observation) : String × String := (obs.agent.raw, obs.outcome.debug)

/-- `RouterTuner::on_observation`. -/
def onObservation (tuner : RouterTuner) (obs : Observation) : RouterTuner :=
  match obs.outcomeDetail with
  | none => tuner
  | some outcome =>
    ⟨tuner.buckets.insert (keyOf obs)
      (((tuner.buckets.lookup (keyOf obs)).getD ⟨0, 0, 0⟩).add outcome)⟩

/-- The tuner once it was told of these. -/
def told (seen : List Observation) : RouterTuner := seen.foldl onObservation new

end RouterTuner

/-! ## The escalation tuner -/

/-- `EscalationStats`. -/
structure EscalationStats where
  total : ℕ
  escalated : ℕ
  escalatedThenSucceeded : ℕ
  deriving DecidableEq, Repr

namespace EscalationStats

/-- `EscalationStats::escalation_rate`. -/
def escalationRate (s : EscalationStats) : F64 :=
  if s.total = 0 then 0 else .finite s.escalated / .finite s.total

/-- `EscalationStats::false_escalation_rate`. -/
def falseEscalationRate (s : EscalationStats) : F64 :=
  if s.escalated = 0 then 0 else .finite s.escalatedThenSucceeded / .finite s.escalated

/-- `EscalationTuner::on_observation`; nothing ever counts as having succeeded afterwards. -/
def onObservation (s : EscalationStats) (obs : Observation) : EscalationStats :=
  match obs.outcomeDetail with
  | none => s
  | some outcome =>
    { s with
      total := s.total + 1
      escalated := if outcome.status = .escalated then s.escalated + 1 else s.escalated }

/-- The statistics of an `EscalationTuner` once it was told of these. -/
def told (seen : List Observation) : EscalationStats := seen.foldl onObservation ⟨0, 0, 0⟩

end EscalationStats

/-! ## The capability scorer -/

/-- `ScorerConfig`. -/
structure ScorerConfig where
  successDelta : F64
  failureDelta : F64

/-- `ScorerConfig::default`. -/
def ScorerConfig.default : ScorerConfig := ⟨.finite (2 / 100), .finite (5 / 100)⟩

/-- `CapabilityScorer`. -/
structure CapabilityScorer where
  config : ScorerConfig
  scores : HashMap String F64

namespace CapabilityScorer

/-- `CapabilityScorer::new`. -/
def new (config : ScorerConfig) : CapabilityScorer := ⟨config, ∅⟩

/-- `CapabilityScorer::score_for`: neutral where nothing was observed. -/
def scoreFor (scorer : CapabilityScorer) (agent : String) : F64 :=
  (scorer.scores.lookup agent).getD (.finite (1 / 2))

/-- `f32::EPSILON`. -/
def epsilon : F64 := .finite (1 / 2 ^ 23)

/-- How far an outcome moves a score. -/
def deltaOf (config : ScorerConfig) : OutcomeStatus → F64
  | .succeeded => config.successDelta
  | .failed => -config.failureDelta
  | .rolledBack => -config.failureDelta
  | _ => 0

/-- `CapabilityScorer::on_observation`. -/
def onObservation (scorer : CapabilityScorer) (obs : Observation) : CapabilityScorer :=
  match obs.outcomeDetail with
  | none => scorer
  | some outcome =>
    let delta := deltaOf scorer.config outcome.status
    if delta.abs.lt epsilon then scorer
    else { scorer with
      scores := scorer.scores.insert obs.agent.raw
        ((scorer.scoreFor obs.agent.raw + delta).clamp 0 (.finite 1)) }

/-- The scorer once it was told of these. -/
def told (config : ScorerConfig) (seen : List Observation) : CapabilityScorer :=
  seen.foldl onObservation (new config)

end CapabilityScorer

/-! ## Routing -/

/-- Routing tier. -/
inductive RoutingTier : Type where
  | high : RoutingTier
  | standard : RoutingTier
  | low : RoutingTier
  deriving DecidableEq, Repr

/-- The `Debug` rendering. -/
def RiskTier.debug : RiskTier → String
  | read => "Read"
  | write => "Write"
  | advisory => "Advisory"
  | delegation => "Delegation"
  | governance => "Governance"

/-- `DefaultRoutingPolicy::choose`. -/
def DefaultRoutingPolicy.choose (intent : IntentEnvelope) : RoutingTier :=
  match intent.riskTier with
  | .governance => .high
  | .write => .standard
  | .delegation => .standard
  | .read => .low
  | .advisory => .low

/-- `LearnedRoutingPolicy`. -/
structure LearnedRoutingPolicy where
  overrides : HashMap (String × String) RoutingTier

namespace LearnedRoutingPolicy

/-- `LearnedRoutingPolicy::new`. -/
def new : LearnedRoutingPolicy := ⟨∅⟩

/-- `LearnedRoutingPolicy::set`. -/
def set (policy : LearnedRoutingPolicy) (intentType riskTier : String) (tier : RoutingTier) :
    LearnedRoutingPolicy :=
  ⟨policy.overrides.insert (intentType, riskTier) tier⟩

/-- `LearnedRoutingPolicy::choose`. -/
def choose (policy : LearnedRoutingPolicy) (intent : IntentEnvelope) : RoutingTier :=
  match policy.overrides.lookup (intent.intentType.debug, intent.riskTier.debug) with
  | some tier => tier
  | none => DefaultRoutingPolicy.choose intent

end LearnedRoutingPolicy

/-- `ValueRouter`, over any kind of provider. -/
structure ValueRouter (π : Type) where
  providers : HashMap RoutingTier π
  policy : IntentEnvelope → RoutingTier

namespace ValueRouter

variable {π : Type}

/-- `ValueRouter::new`. -/
def new : ValueRouter π := ⟨∅, DefaultRoutingPolicy.choose⟩

/-- `ValueRouter::with_policy`. -/
def withPolicy (router : ValueRouter π) (policy : IntentEnvelope → RoutingTier) : ValueRouter π :=
  { router with policy := policy }

/-- `ValueRouter::register`. -/
def register (router : ValueRouter π) (tier : RoutingTier) (provider : π) : ValueRouter π :=
  { router with providers := router.providers.insert tier provider }

/-- `ValueRouter::choose`: the tier's own provider, the standard one, or the first of all as the
table is iterated. -/
def choose (router : ValueRouter π) (tier : RoutingTier) : Option π :=
  (router.providers.lookup tier).or
    ((router.providers.lookup .standard).or (router.providers.entries.head?.map Sigma.snd))

/-- `ValueRouter::choose_for_intent`. -/
def chooseForIntent (router : ValueRouter π) (intent : IntentEnvelope) : Option π :=
  router.choose (router.policy intent)

end ValueRouter

/-! ## What the tables hold -/

/-- The outcomes of the observations with a key. -/
def outcomesOf (seen : List Observation) (key : String × String) : List Outcome :=
  seen.filterMap fun obs => if RouterTuner.keyOf obs = key then obs.outcomeDetail else none

theorem outcomesOf_concat (seen : List Observation) (obs : Observation) (key : String × String) :
    outcomesOf (seen ++ [obs]) key = outcomesOf seen key ++
      (if RouterTuner.keyOf obs = key then obs.outcomeDetail else none).toList := by
  rw [outcomesOf, List.filterMap_append]
  refine congrArg (outcomesOf seen key ++ ·) ?_
  rcases h : if RouterTuner.keyOf obs = key then obs.outcomeDetail else none with _ | outcome
  · exact List.filterMap_cons_none h
  · exact List.filterMap_cons_some h

/-- The statistics of these outcomes. -/
def BucketStats.of (outcomes : List Outcome) : BucketStats :=
  ⟨outcomes.length, (outcomes.map Outcome.costUsd).sum,
    outcomes.countP fun outcome => decide (outcome.status = .succeeded)⟩

theorem BucketStats.of_concat (outcomes : List Outcome) (outcome : Outcome) :
    BucketStats.of (outcomes ++ [outcome]) = (BucketStats.of outcomes).add outcome := by
  have hcost : ((outcomes ++ [outcome]).map Outcome.costUsd).sum =
      (outcomes.map Outcome.costUsd).sum + outcome.costUsd := by
    rw [List.map_append, List.sum_append, List.map_singleton, List.sum_singleton]
  rw [BucketStats.of, hcost]
  by_cases h : outcome.status = .succeeded
  · simp [BucketStats.of, BucketStats.add, h]
  · simp [BucketStats.of, BucketStats.add, h]

/-- What a bucket holds: nothing before the first outcome. -/
def bucketOf (outcomes : List Outcome) : Option BucketStats :=
  if outcomes = [] then none else some (.of outcomes)

theorem getD_bucketOf (outcomes : List Outcome) :
    (bucketOf outcomes).getD ⟨0, 0, 0⟩ = .of outcomes := by
  rw [bucketOf]
  split_ifs with h
  · rw [h]
    rfl
  · rfl

namespace RouterTuner

theorem told_concat (seen : List Observation) (obs : Observation) :
    told (seen ++ [obs]) = (told seen).onObservation obs := List.foldl_concat ..

/-- **The buckets.** Each holds the outcomes that came with its key. -/
theorem lookup_told (seen : List Observation) (key : String × String) :
    (told seen).buckets.lookup key = bucketOf (outcomesOf seen key) := by
  induction seen using List.reverseRecOn with
  | nil => rfl
  | append_singleton seen obs ih =>
    rw [told_concat, onObservation, outcomesOf_concat]
    rcases obs.outcomeDetail with _ | outcome
    · rw [ite_self, Option.toList_none, List.append_nil]
      exact ih
    change AList.lookup key (AList.insert (keyOf obs) _ _) = _
    by_cases hkey : keyOf obs = key
    · subst hkey
      rw [AList.lookup_insert, ih, getD_bucketOf, ← BucketStats.of_concat, if_pos rfl]
      exact (if_neg (by simp)).symm
    · rw [AList.lookup_insert_ne (Ne.symm hkey), ih, if_neg hkey, Option.toList_none,
        List.append_nil]

end RouterTuner

namespace EscalationStats

/-- **The escalation statistics.** No escalation ever turns out to have been in vain. -/
theorem told_eq (seen : List Observation) :
    told seen = ⟨(seen.filterMap Observation.outcomeDetail).length,
      (seen.filterMap Observation.outcomeDetail).countP
        fun outcome => decide (outcome.status = .escalated), 0⟩ := by
  induction seen using List.reverseRecOn with
  | nil => rfl
  | append_singleton seen obs ih =>
    have htold : told (seen ++ [obs]) = (told seen).onObservation obs := List.foldl_concat ..
    rw [htold, ih, onObservation, List.filterMap_append]
    rcases hdetail : obs.outcomeDetail with _ | outcome
    · simp [hdetail]
    · by_cases hstatus : outcome.status = .escalated
      · simp [hdetail, hstatus]
      · simp [hdetail, hstatus]

end EscalationStats

/-! ## What the executor reports -/

/-- The observation of a node that succeeded. -/
structure RuntimeSuccess (obs : Observation) : Prop where
  agent_eq : obs.agent.raw = "runtime"
  outcome_eq : obs.outcome = .success
  detail : ∃ outcome, obs.outcomeDetail = some outcome ∧ outcome.status = .succeeded

theorem runtimeSuccess_observationOf (intent : IntentEnvelope) (id : NodeId) (node : Node)
    (output : NodeOutput) (step : ℕ) :
    RuntimeSuccess (GraphExecutor.observationOf intent id node output step) :=
  ⟨rfl, rfl, _, rfl, rfl⟩

namespace CapabilityScorer

theorem config_onObservation (scorer : CapabilityScorer) (obs : Observation) :
    (scorer.onObservation obs).config = scorer.config := by
  rw [onObservation]
  split
  · rfl
  · dsimp only
    split <;> rfl

theorem onObservation_of_success {scorer : CapabilityScorer} (hconfig : scorer.config = .default)
    {obs : Observation} (h : RuntimeSuccess obs) :
    scorer.onObservation obs = { scorer with
      scores := scorer.scores.insert "runtime"
        ((scorer.scoreFor "runtime" + .finite (2 / 100)).clamp 0 (.finite 1)) } := by
  obtain ⟨hagent, -, outcome, hdetail, hstatus⟩ := h
  have hdelta : (F64.abs (.finite (2 / 100))).lt epsilon = false := by decide +kernel
  rw [onObservation, hdetail]
  dsimp only
  rw [hconfig, hstatus, hagent]
  change (if (F64.abs (.finite (2 / 100))).lt epsilon = true then _ else _) = _
  rw [hdelta, if_neg Bool.false_ne_true]
  rfl

/-- **Scores.** Successes of the runtime raise its score, up to 1, and no other. -/
theorem scoreFor_told {seen : List Observation} (h : ∀ obs ∈ seen, RuntimeSuccess obs)
    (agent : String) :
    (told .default seen).scoreFor agent =
      if agent = "runtime" then .finite (min 1 (1 / 2 + seen.length / 50))
      else .finite (1 / 2) := by
  have hconfig : ∀ seen, (told .default seen).config = .default := fun seen =>
    List.foldlRecOn (motive := fun scorer => scorer.config = .default) seen onObservation rfl
      fun scorer hscorer obs _ => (config_onObservation scorer obs).trans hscorer
  induction seen using List.reverseRecOn with
  | nil =>
    have hstart : (told .default []).scoreFor agent = .finite (1 / 2) := rfl
    rw [hstart, List.length_nil, Nat.cast_zero, zero_div, add_zero, min_eq_right (by norm_num),
      ite_self]
  | append_singleton seen obs ih =>
    have htold : told .default (seen ++ [obs]) = (told .default seen).onObservation obs :=
      List.foldl_concat ..
    have hseen := ih fun o ho => h o (List.mem_append_left _ ho)
    have hobs := h obs (List.mem_append_right _ (List.mem_singleton_self _))
    rw [htold, onObservation_of_success (hconfig seen) hobs, scoreFor]
    by_cases hname : agent = "runtime"
    · subst hname
      rw [if_pos rfl] at hseen ⊢
      rw [AList.lookup_insert, hseen]
      change F64.clamp (.finite _ + .finite (2 / 100)) (.finite 0) (.finite 1) = _
      rw [F64.finite_add, F64.finite_clamp _ zero_le_one, List.length_append, List.length_singleton,
        Nat.cast_add, Nat.cast_one]
      refine congrArg F64.finite ?_
      have hlength : (0 : ℚ) ≤ seen.length := Nat.cast_nonneg _
      rcases le_total (1 : ℚ) (1 / 2 + seen.length / 50) with hfull | hroom
      · rw [min_eq_left hfull, min_eq_left (by linarith), min_eq_left (by linarith)]
        norm_num
      · have hnext : (1 : ℚ) / 2 + seen.length / 50 + 2 / 100 = 1 / 2 + (seen.length + 1) / 50 := by
          linarith
        rw [min_eq_right hroom, hnext, max_eq_right (le_min zero_le_one (by linarith))]
    · rw [if_neg hname] at hseen ⊢
      rw [AList.lookup_insert_ne hname]
      exact hseen

end CapabilityScorer

/-! ### What subscribers are handed -/

/-- The observation an event hands to the subscribers, whatever the store says to it. -/
def Event.observation? : Event → Option Observation
  | .recorded step _ => some step.observation
  | _ => none

namespace Recorder

variable {σ : Type} [TraceStore σ]

theorem inboxes_close (r : Recorder σ) (id : TraceId) (status : TraceStatus) :
    (r.close id status).2.inboxes = r.inboxes := by
  have h : (r.close id status).2.inboxes = r.inboxes.map (· ++ []) :=
    inboxes_exec r (.close id status)
  rw [h]
  simp

theorem inboxes_openTrace (r : Recorder σ) (id : TraceId) (intent : IntentId) :
    (r.openTrace id intent).2.inboxes = r.inboxes := by
  have h : (r.openTrace id intent).2.inboxes = r.inboxes.map (· ++ []) :=
    inboxes_exec r (.openTrace id intent)
  rw [h]
  simp

theorem inboxes_recordStep (r : Recorder σ) (step : TraceStep) :
    (r.recordStep step).2.inboxes = r.inboxes.map (· ++ [step.observation]) :=
  inboxes_exec r (.recordStep step)

end Recorder

namespace GraphExecutor

/-- The observations of a log. -/
def observed (log : List Event) : List Observation := log.filterMap Event.observation?

theorem observed_append (l l' : List Event) : observed (l ++ l') = observed l ++ observed l' := by
  rw [observed, List.filterMap_append]
  rfl

section Run

variable {σ : Type} {exec : GraphExecutor (Recorder σ)} {world : World} {g : Graph}
  {intent : IntentEnvelope} {pre : List NodeId} {id : NodeId} {node : Node} {output : NodeOutput}
  {r : Recorder σ} {s s' : RunState (Recorder σ)} {x : Exit (Recorder σ)}

theorem observed_runLog : observed (exec.runLog intent id node s) = [] := by
  rw [runLog]
  split
  · rfl
  · rw [observed_append, observed, List.filterMap_map]
    exact List.append_eq_nil_iff.mpr ⟨List.filterMap_eq_nil_iff.mpr fun _ _ => rfl, rfl⟩

theorem observed_compensatorRuns (runs : List CompensatorRun) :
    observed (runs.map .compensatorRun) = [] := by
  rw [observed, List.filterMap_map]
  exact List.filterMap_eq_nil_iff.mpr fun _ _ => rfl

/-- Since `r`, the subscribers were handed the observations of the log, all of them of nodes that
succeeded. -/
structure Handed (r : Recorder σ) (s : RunState (Recorder σ)) : Prop where
  inboxes_eq : s.recorder.inboxes = r.inboxes.map (· ++ observed s.log)
  success : ∀ obs ∈ observed s.log, RuntimeSuccess obs

/-- A part of the run that hands nothing on. -/
theorem Handed.silent {block : List Event} (h : Handed r s) (hlog : s'.log = s.log ++ block)
    (hblock : observed block = []) (hrecorder : s'.recorder.inboxes = s.recorder.inboxes) :
    Handed r s' := by
  have hsame : observed s'.log = observed s.log := by
    rw [hlog, observed_append, hblock, List.append_nil]
  refine ⟨?_, ?_⟩
  · rw [hsame, hrecorder]
    exact h.inboxes_eq
  · rw [hsame]
    exact h.success

theorem Handed.stopped {block : List Event} (h : Handed r s) (hblock : observed block = []) :
    Handed r (stopped s block) := h.silent rfl hblock rfl

theorem handed_initial : Handed exec.recorder exec.initial :=
  ⟨(List.map_id' _).symm.trans (List.map_congr_left fun _ _ => (List.append_nil _).symm),
    fun _ hobs => absurd hobs List.not_mem_nil⟩

theorem Handed.artifact (h : Handed r s) : Handed r (exec.artifactState intent s) := by
  have hlog : (exec.artifactState intent s).log = s.log ++
      [.policy .preArtifact none (artifactContext intent s) (exec.artifactDecision intent s)] := rfl
  exact h.silent hlog rfl rfl

variable [TraceStore σ]

theorem observed_stepLog :
    observed (exec.stepLog world intent id node output s) =
      [observationOf intent id node output (s.step + 1)] := by
  rw [stepLog, observed_append, observed_append, observed_append, observed_append, observed_runLog]
  rfl

/-- A part of the run that hands on one observation. -/
theorem Handed.recorded (h : Handed r s)
    (hlog : s'.log = s.log ++ exec.stepLog world intent id node output s)
    (hrecorder : s'.recorder = (recordOf intent id node output s).2) : Handed r s' := by
  have hmore : observed s'.log =
      observed s.log ++ [observationOf intent id node output (s.step + 1)] := by
    rw [hlog, observed_append, observed_stepLog]
  refine ⟨?_, fun obs hobs => ?_⟩
  · have hstep : s'.recorder.inboxes =
        s.recorder.inboxes.map (· ++ [observationOf intent id node output (s.step + 1)]) := by
      rw [hrecorder]
      exact s.recorder.inboxes_recordStep _
    rw [hmore, hstep, h.inboxes_eq, List.map_map]
    refine List.map_congr_left fun inbox _ => ?_
    exact List.append_assoc ..
  · rw [hmore, List.mem_append, List.mem_singleton] at hobs
    rcases hobs with hobs | rfl
    · exact h.success obs hobs
    · exact runtimeSuccess_observationOf ..

theorem Handed.closeTrace {status : TraceStatus} {result : RunResult} (h : Handed r s) :
    Handed r (closeTrace intent status s result).state := by
  refine h.silent closeTrace_log rfl ?_
  rw [closeTrace_recorder]
  exact s.recorder.inboxes_close ..

theorem handed_opened : Handed exec.recorder (exec.openedState intent) := by
  refine handed_initial.silent (List.nil_append _).symm rfl ?_
  exact exec.recorder.inboxes_openTrace ..

theorem Reaches.handed (h : Reaches exec world g intent pre s) : Handed exec.recorder s := by
  refine h.induction (I := fun _ s => Handed exec.recorder s) (fun _ => handed_opened) ?_
  intro pre s id node output _ hs _
  exact hs.recorded rfl rfl

theorem Handed.failStep {e : RuntimeError} (h : Handed r s) :
    Handed r (failStep intent s e).state := by
  rw [GraphExecutor.failStep]
  have hs : Handed r { s with log := s.log ++ (rollback intent s).2.map .compensatorRun } :=
    h.silent rfl (observed_compensatorRuns _) rfl
  dsimp only
  split
  · exact hs
  · exact hs.closeTrace

theorem StepExit.handed (hexit : StepExit exec world g intent s id x) (h : Handed r s) :
    Handed r x.state := by
  cases hexit with
  | missing => exact h.stopped rfl
  | preDenied => exact (h.stopped rfl).closeTrace
  | prePaused => exact (h.stopped rfl).closeTrace
  | failed =>
    refine (h.stopped ?_).failStep
    rw [observed_append, observed_runLog]
    rfl
  | unrecorded => exact h.recorded rfl rfl
  | exhausted =>
    refine Handed.closeTrace (h.silent rfl ?_ rfl)
    rw [observed_append, observed_append, observed_runLog]
    rfl
  | postDenied =>
    refine Handed.closeTrace (h.silent rfl ?_ rfl)
    rw [observed_append, observed_append, observed_append, observed_runLog]
    rfl
  | postPaused =>
    refine Handed.closeTrace (h.silent rfl ?_ rfl)
    rw [observed_append, observed_append, observed_append, observed_runLog]
    rfl

/-- A run hands on the observations of its log. -/
theorem run_handed (exec : GraphExecutor (Recorder σ)) (world : World) (g : Graph)
    (intent : IntentEnvelope) : Handed exec.recorder (exec.run world g intent).state := by
  have hcases : RunCase exec world g intent (exec.run world g intent) := run_cases
  generalize exec.run world g intent = x at hcases
  cases hcases with
  | revoked => exact handed_initial
  | unopened => exact handed_opened
  | planDenied => exact handed_opened.closeTrace
  | planPaused => exact handed_opened.closeTrace
  | stoppedAt _ hreach hexit => exact hexit.handed hreach.handed
  | artifactDenied hreach => exact hreach.handed.artifact.closeTrace
  | artifactPaused hreach => exact hreach.handed.artifact.closeTrace
  | completed hreach => exact hreach.handed.artifact.closeTrace

end Run

/-! ### Runs on one recorder -/

section Jobs

variable {σ : Type} [TraceStore σ]

/-- A run to be made, whatever recorder it finds. -/
structure Job (σ : Type) where
  exec : GraphExecutor (Recorder σ)
  world : World
  graph : Graph
  intent : IntentEnvelope

/-- The run. -/
def execJob (r : Recorder σ) (job : Job σ) : Exit (Recorder σ) × Recorder σ :=
  let x := { job.exec with recorder := r }.run job.world job.graph job.intent
  (x, x.state.recorder)

/-- What a subscriber makes of the observations it was told of, in the order it was told. -/
structure Taught (seen : List Observation) : Prop where
  escalations : EscalationStats.told seen = ⟨seen.length, 0, 0⟩
  buckets : ∀ key, (RouterTuner.told seen).buckets.lookup key =
    if key = ("runtime", "Success") ∧ seen ≠ [] then
      some ⟨seen.length, ((seen.filterMap Observation.outcomeDetail).map Outcome.costUsd).sum,
        seen.length⟩
    else none
  scores : ∀ agent, (CapabilityScorer.told .default seen).scoreFor agent =
    if agent = "runtime" then .finite (min 1 (1 / 2 + seen.length / 50)) else .finite (1 / 2)

/-- Each success has an outcome, and the outcome is a success. -/
theorem outcomes_of_success {seen : List Observation} (h : ∀ obs ∈ seen, RuntimeSuccess obs) :
    (seen.filterMap Observation.outcomeDetail).length = seen.length ∧
      ∀ outcome ∈ seen.filterMap Observation.outcomeDetail, outcome.status = .succeeded := by
  induction seen with
  | nil => exact ⟨rfl, fun _ h => absurd h List.not_mem_nil⟩
  | cons obs seen ih =>
    obtain ⟨-, -, outcome, hdetail, hstatus⟩ := h obs List.mem_cons_self
    obtain ⟨hlength, hall⟩ := ih fun o ho => h o (List.mem_cons_of_mem _ ho)
    rw [List.filterMap_cons_some hdetail]
    refine ⟨congrArg (· + 1) hlength, fun o ho => ?_⟩
    rcases List.mem_cons.mp ho with rfl | ho
    · exact hstatus
    · exact hall o ho

theorem taught_of_success {seen : List Observation} (h : ∀ obs ∈ seen, RuntimeSuccess obs) :
    Taught seen := by
  obtain ⟨hlength, hstatus⟩ := outcomes_of_success h
  refine ⟨?_, fun key => ?_, CapabilityScorer.scoreFor_told h⟩
  · rw [EscalationStats.told_eq, hlength]
    refine congrArg (EscalationStats.mk _ · 0) (List.countP_eq_zero.mpr fun outcome ho => ?_)
    rw [hstatus outcome ho]
    decide
  · have hkey : ∀ obs ∈ seen, RouterTuner.keyOf obs = ("runtime", "Success") := by
      intro obs hobs
      rw [RouterTuner.keyOf, (h obs hobs).agent_eq, (h obs hobs).outcome_eq]
      rfl
    rw [RouterTuner.lookup_told]
    by_cases hruntime : key = ("runtime", "Success")
    · have houtcomes : outcomesOf seen key = seen.filterMap Observation.outcomeDetail :=
        List.filterMap_congr fun obs hobs => if_pos ((hkey obs hobs).trans hruntime.symm)
      rw [houtcomes, bucketOf]
      have hnil : seen.filterMap Observation.outcomeDetail = [] ↔ seen = [] := by
        rw [← List.length_eq_zero_iff, hlength, List.length_eq_zero_iff]
      by_cases hempty : seen = []
      · rw [if_pos (hnil.mpr hempty), if_neg fun hand => hand.2 hempty]
      · rw [if_neg (mt hnil.mp hempty), if_pos ⟨hruntime, hempty⟩, BucketStats.of, hlength]
        refine congrArg (fun n => some (BucketStats.mk _ _ n)) ?_
        rw [← hlength]
        exact List.countP_eq_length.mpr fun outcome ho => decide_eq_true (hstatus outcome ho)
    · have hnone : outcomesOf seen key = [] := List.filterMap_eq_nil_iff.mpr fun obs hobs =>
        if_neg fun heq => hruntime (heq.symm.trans (hkey obs hobs))
      rw [hnone, if_neg fun hand => hruntime hand.1]
      rfl

/-- What is handed on in these runs, one after the other. -/
def observedIn (r : Recorder σ) (jobs : List (Job σ)) : List Observation :=
  (Machine.trace execJob r jobs).flatMap fun st => observed st.reply.state.log

theorem observedIn_concat (r : Recorder σ) (jobs : List (Job σ)) (job : Job σ) :
    observedIn r (jobs ++ [job]) =
      observedIn r jobs ++ observed (execJob (Machine.run execJob r jobs) job).1.state.log := by
  rw [observedIn, Machine.trace_concat, List.flatMap_append, List.flatMap_singleton]
  rfl

theorem runs_handed (r : Recorder σ) (jobs : List (Job σ)) :
    (Machine.run execJob r jobs).inboxes = r.inboxes.map (· ++ observedIn r jobs) ∧
      ∀ obs ∈ observedIn r jobs, RuntimeSuccess obs := by
  induction jobs using List.reverseRecOn with
  | nil =>
    refine ⟨?_, fun _ hobs => absurd hobs List.not_mem_nil⟩
    exact (List.map_id' _).symm.trans (List.map_congr_left fun _ _ => (List.append_nil _).symm)
  | append_singleton jobs job ih =>
    obtain ⟨hinboxes, hsuccess⟩ := ih
    have hrun := run_handed { job.exec with recorder := Machine.run execJob r jobs } job.world
      job.graph job.intent
    rw [Machine.run_concat, observedIn_concat]
    refine ⟨?_, fun obs hobs => ?_⟩
    · refine hrun.inboxes_eq.trans ?_
      change (Machine.run execJob r jobs).inboxes.map _ = _
      rw [hinboxes, List.map_map]
      exact List.map_congr_left fun inbox _ => List.append_assoc ..
    · rcases List.mem_append.mp hobs with hobs | hobs
      · exact hsuccess obs hobs
      · exact hrun.success obs hobs

/-- **Runs teach success only.** However many runs a recorder has seen, a subscriber that was told
of everything, in any order, has seen no escalation and no failure, and nobody but the runtime. -/
theorem runs_teach_success (store : σ) (subscribers : ℕ) (jobs : List (Job σ)) :
    (Machine.run execJob (Recorder.new store subscribers) jobs).inboxes =
        List.replicate subscribers (observedIn (Recorder.new store subscribers) jobs) ∧
      ∀ seen : List Observation,
        seen.Perm (observedIn (Recorder.new store subscribers) jobs) → Taught seen := by
  obtain ⟨hinboxes, hsuccess⟩ := runs_handed (Recorder.new store subscribers) jobs
  refine ⟨?_, fun seen hperm => taught_of_success fun obs hobs => ?_⟩
  · rw [hinboxes]
    change (List.replicate subscribers []).map _ = _
    rw [List.map_replicate, List.nil_append]
  · exact hsuccess obs (hperm.mem_iff.mp hobs)

end Jobs

end GraphExecutor

/-! ## Routing by what was learned -/

/-- No outcome is called like a risk tier. -/
theorem StepOutcome.debug_ne (outcome : StepOutcome) (tier : RiskTier) :
    outcome.debug ≠ tier.debug := by
  cases outcome <;> cases tier <;> decide

namespace LearnedRoutingPolicy

/-- The overrides a caller reads off the tuner's table, whichever it makes of each bucket. -/
def ofTuner (tuner : RouterTuner) (tierOf : String × String → BucketStats → Option RoutingTier) :
    LearnedRoutingPolicy :=
  tuner.buckets.entries.foldl (fun policy entry =>
    match tierOf entry.1 entry.2 with
    | some tier => policy.set entry.1.1 entry.1.2 tier
    | none => policy) new

/-- The keys of the tuner are outcomes of steps. -/
theorem key_of_told {seen : List Observation} {key : String × String}
    (h : key ∈ (RouterTuner.told seen).buckets) :
    ∃ outcome : StepOutcome, key.2 = outcome.debug := by
  rw [← AList.lookup_isSome, RouterTuner.lookup_told, bucketOf] at h
  have hne : outcomesOf seen key ≠ [] := by
    intro hnil
    rw [if_pos hnil] at h
    cases h
  obtain ⟨outcome, hmem⟩ := List.exists_mem_of_ne_nil _ hne
  obtain ⟨obs, -, hobs⟩ := List.mem_filterMap.mp hmem
  split_ifs at hobs with hkey
  rw [← hkey]
  exact ⟨obs.outcome, rfl⟩

/-- **The overrides are inert.** Whatever the tuner has seen and whatever is made of it, a router
that goes by it chooses as one that goes by the default policy. -/
theorem overrides_inert (seen : List Observation)
    (tierOf : String × String → BucketStats → Option RoutingTier) {π : Type}
    (router : ValueRouter π) (intent : IntentEnvelope) :
    (router.withPolicy (ofTuner (RouterTuner.told seen) tierOf).choose).chooseForIntent intent =
      (router.withPolicy DefaultRoutingPolicy.choose).chooseForIntent intent := by
  have hkeys : ∀ entry ∈ (RouterTuner.told seen).buckets.entries,
      entry.1.2 ≠ intent.riskTier.debug := by
    intro entry hentry heq
    obtain ⟨outcome, houtcome⟩ := key_of_told (List.mem_map_of_mem hentry)
    exact outcome.debug_ne intent.riskTier (houtcome.symm.trans heq)
  have hlookup : (ofTuner (RouterTuner.told seen) tierOf).overrides.lookup
      (intent.intentType.debug, intent.riskTier.debug) = none := by
    refine List.foldlRecOn (motive := fun policy : LearnedRoutingPolicy =>
      policy.overrides.lookup (intent.intentType.debug, intent.riskTier.debug) = none) _ _ rfl ?_
    intro policy hpolicy entry hentry
    split
    · refine (AList.lookup_insert_ne fun heq => ?_).trans hpolicy
      exact hkeys entry hentry (congrArg Prod.snd heq).symm
    · exact hpolicy
  rw [ValueRouter.chooseForIntent, ValueRouter.chooseForIntent]
  refine congrArg router.choose ?_
  change choose _ intent = _
  rw [choose, hlookup]
  rfl

end LearnedRoutingPolicy

end Aaf
