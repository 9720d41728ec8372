import Aaf.FastPathMiner

/-!
# Fast-path rules

A `FastPathRuleSet` holds hand-authored rules and learned ones; a learned rule is disabled and
enabled again under the id it was proposed with.

The miner makes an id of two counts, so two proposals can share one and are then disabled
together. `disabled_one_at_a_time_iff` says exactly when they are not: when no two of the
batches behind them agree in both counts.
-/

namespace Aaf

/-- One field mapping from intent constraint to capability input. -/
structure FieldMapping where
  «from» : String
  «to» : String
  deriving DecidableEq, Repr

/-- One condition that must be true for the rule to match. -/
structure Condition where
  field : String
  equals : Json

/-- Pattern descriptor: what the rule is matching against. -/
structure RequestPattern where
  intentType : String
  domain : String
  deriving DecidableEq, Repr

/-- One fast-path rule. -/
structure FastPathRule where
  pattern : RequestPattern
  targetCapability : CapabilityId
  fieldMapping : List FieldMapping
  conditions : List Condition

/-- A rule tagged as hand-authored (no id) or learned. -/
structure TaggedRule where
  rule : FastPathRule
  learnedRuleId : Option String
  evidence : List String
  enabled : Bool

/-- A set of fast-path rules, in the order in which they were added. -/
structure FastPathRuleSet where
  rules : List TaggedRule

namespace FastPathRuleSet

/-- `FastPathRuleSet::new`. -/
def new : FastPathRuleSet := ⟨[]⟩

/-- `FastPathRuleSet::push`: a hand-authored rule. -/
def push (set : FastPathRuleSet) (rule : FastPathRule) : FastPathRuleSet :=
  ⟨set.rules ++ [⟨rule, none, [], true⟩]⟩

/-- `FastPathRuleSet::add_learned`. -/
def addLearned (set : FastPathRuleSet) (rule : FastPathRule) (learnedRuleId : String)
    (evidence : List String) : FastPathRuleSet :=
  ⟨set.rules ++ [⟨rule, some learnedRuleId, evidence, true⟩]⟩

/-- Every learned rule with the id is set. -/
def setEnabled (set : FastPathRuleSet) (id : String) (enabled : Bool) : FastPathRuleSet :=
  ⟨set.rules.map fun r => if r.learnedRuleId = some id then { r with enabled := enabled } else r⟩

/-- `FastPathRuleSet::disable_learned`. -/
def disableLearned (set : FastPathRuleSet) (id : String) : FastPathRuleSet :=
  set.setEnabled id false

/-- Proposals are installed behind hand-authored rules, each as some fast-path rule. -/
def install (hand : List FastPathRule) (learned : List (FastPathRule × LearnedRule)) :
    FastPathRuleSet :=
  learned.foldl
    (fun set entry => set.addLearned entry.1 entry.2.id (entry.2.evidence.map IntentId.raw))
    (hand.foldl push new)

/-- A proposal as it is installed. -/
def tagged (entry : FastPathRule × LearnedRule) : TaggedRule :=
  ⟨entry.1, some entry.2.id, entry.2.evidence.map IntentId.raw, true⟩

/-- Rules that are added one after another stand one after another. -/
theorem rules_foldl {α : Type} {add : FastPathRuleSet → α → FastPathRuleSet}
    (tag : α → TaggedRule) (h : ∀ set a, (add set a).rules = set.rules ++ [tag a])
    (items : List α) (set : FastPathRuleSet) :
    (items.foldl add set).rules = set.rules ++ items.map tag := by
  induction items generalizing set with
  | nil => exact (List.append_nil _).symm
  | cons a items ih =>
    rw [List.foldl_cons, ih, h, List.append_assoc, List.map_cons, List.singleton_append]

theorem rules_install (hand : List FastPathRule) (learned : List (FastPathRule × LearnedRule)) :
    (install hand learned).rules =
      (hand.map fun rule => ⟨rule, none, [], true⟩) ++ learned.map tagged := by
  have hhand : (hand.foldl push new).rules = hand.map fun rule => ⟨rule, none, [], true⟩ :=
    rules_foldl _ (fun _ _ => rfl) hand new
  rw [install, rules_foldl tagged fun _ _ => by rfl, hhand]

/-- Only the rule at the place is set, when it is the only one with the id. -/
theorem setEnabled_eq_modify {set : FastPathRuleSet} {id : String} {i : ℕ} (enabled : Bool)
    (h : ∀ j r, set.rules[j]? = some r → (r.learnedRuleId = some id ↔ j = i)) :
    (set.setEnabled id enabled).rules =
      set.rules.modify i fun r => { r with enabled := enabled } := by
  refine List.ext_getElem? fun j => ?_
  rw [setEnabled, List.getElem?_map, List.getElem?_modify]
  cases hr : set.rules[j]? with
  | none => simp
  | some r =>
    by_cases hji : j = i
    · simp [(h j r hr).mpr hji, hji]
    · simp [mt (h j r hr).mp hji, Ne.symm hji]

/-- With distinct ids, an id is at one place. -/
theorem learnedRuleId_install_iff {hand : List FastPathRule}
    {learned : List (FastPathRule × LearnedRule)}
    (hnodup : (learned.map fun entry => entry.2.id).Nodup) {i j : ℕ}
    {entry : FastPathRule × LearnedRule} (hentry : learned[i]? = some entry) {r : TaggedRule}
    (hr : (install hand learned).rules[j]? = some r) :
    r.learnedRuleId = some entry.2.id ↔ j = hand.length + i := by
  rw [rules_install, List.getElem?_append, List.length_map] at hr
  split at hr
  next hj =>
    rw [List.getElem?_map, Option.map_eq_some_iff] at hr
    obtain ⟨rule, -, rfl⟩ := hr
    refine iff_of_false (fun h => (by cases h)) (by omega)
  next hj =>
    rw [List.getElem?_map, Option.map_eq_some_iff] at hr
    obtain ⟨entry', hentry', rfl⟩ := hr
    rw [tagged, Option.some_inj]
    refine ⟨fun hid => ?_, fun hj => ?_⟩
    · have hi : (learned.map fun entry => entry.2.id)[j - hand.length]? =
          (learned.map fun entry => entry.2.id)[i]? := by
        rw [List.getElem?_map, List.getElem?_map, hentry, hentry', Option.map_some, hid,
          Option.map_some]
      have hlt : j - hand.length < (learned.map fun entry => entry.2.id).length := by
        rw [List.length_map]
        exact (List.getElem?_eq_some_iff.mp hentry').1
      have := (List.getElem?_inj hlt hnodup).mp hi
      omega
    · have hi : j - hand.length = i := by omega
      rw [hi, hentry, Option.some_inj] at hentry'
      rw [hentry']

/-- **One at a time.** The ids are distinct, and when the proposals are installed behind any
hand-authored rules, as any rules, an id disables the rule that was proposed under it and
changes nothing else. -/
structure OneAtATime (proposals : List LearnedRule) : Prop where
  nodup : (proposals.map LearnedRule.id).Nodup
  disables : ∀ hand learned, learned.map Prod.snd = proposals →
    ∀ (i : ℕ) (proposal : LearnedRule), proposals[i]? = some proposal →
      ((install hand learned).disableLearned proposal.id).rules =
        (install hand learned).rules.modify (hand.length + i) fun r => { r with enabled := false }

/-- Distinct ids are all it takes. -/
theorem oneAtATime_iff_nodup {proposals : List LearnedRule} :
    OneAtATime proposals ↔ (proposals.map LearnedRule.id).Nodup := by
  refine ⟨OneAtATime.nodup, fun hnodup => ⟨hnodup, ?_⟩⟩
  rintro hand learned rfl i proposal hproposal
  rw [List.getElem?_map, Option.map_eq_some_iff] at hproposal
  obtain ⟨entry, hentry, rfl⟩ := hproposal
  rw [List.map_map] at hnodup
  exact setEnabled_eq_modify false fun j r hr => learnedRuleId_install_iff hnodup hentry hr

end FastPathRuleSet

namespace FastPathMiner

/-- The counts that the id of a proposal is made of. -/
def counts (batch : List Observation) : ℕ × ℕ := (batch.length, distinctTraces batch)

/-- The id that is made of two counts. -/
def idOf (counts : ℕ × ℕ) : String :=
  "lr-fp-" ++ toString counts.1 ++ "-" ++ toString counts.2

theorem id_ruleOf (batch : List Observation) : (ruleOf batch).id = idOf (counts batch) := by
  rw [ruleOf, PatternEvidence.rule, LearnedRule.propose, PatternEvidence.ruleId,
    card_sessions_evidenceOf, intentIds_evidenceOf, List.length_map, idOf, counts]

/-- Digits hold no dash, so the counts can be read off. -/
theorem idOf_injective : Function.Injective idOf := by
  have hdash : ∀ n : ℕ, '-' ∉ Nat.toDigits 10 n := Text.notMem_toDigits rfl
  have hid : ∀ n d : ℕ, (idOf (n, d)).toList =
      "lr-fp-".toList ++ (Nat.toDigits 10 n ++ '-' :: Nat.toDigits 10 d) := by
    intro n d
    simp [idOf]
  rintro ⟨n, d⟩ ⟨n', d'⟩ h
  have hlist := congrArg String.toList h
  rw [hid, hid] at hlist
  obtain ⟨hn, hd⟩ := Text.append_cons_inj_first (hdash n) (hdash n')
    (List.append_cancel_left hlist)
  rw [Text.toDigits_injective hn, Text.toDigits_injective hd]

theorem ids_proposals (config : MinerConfig) (observations : List Observation) :
    (mine config observations).proposals.map LearnedRule.id =
      ((batches config observations).map fun batch => counts batch.2).map idOf := by
  rw [(mine_represents config observations).proposals_eq, List.map_map, List.map_map]
  exact List.map_congr_left fun batch _ => id_ruleOf batch.2

/-- **When learned rules can be disabled one at a time.** No two batches that the observations
were proposed in agree in the number of observations and in the number of traces. -/
theorem disabled_one_at_a_time_iff (config : MinerConfig) (observations : List Observation) :
    FastPathRuleSet.OneAtATime (mine config observations).proposals ↔
      ((batches config observations).map fun batch => counts batch.2).Nodup := by
  rw [FastPathRuleSet.oneAtATime_iff_nodup, ids_proposals]
  exact List.nodup_map_iff idOf_injective

namespace SampleStream

/-- A successful agent step. -/
def agentStep (trace node : String) : Observation where
  traceId := ⟨trace⟩
  nodeId := ⟨node⟩
  step := 1
  agent := ⟨"runtime"⟩
  observed := []
  reasoning := "ran node " ++ node ++ " of kind Agent"
  decision := "continue"
  confidence := .finite 1
  alternatives := []
  outcome := .success
  outcomeDetail := some ⟨.succeeded, 100, 50, .finite 0⟩

/-- Two nodes take part in the same two traces. -/
def stream : List Observation :=
  [agentStep "t1" "a", agentStep "t1" "b", agentStep "t2" "a", agentStep "t2" "b"]

def proposals : List LearnedRule := (mine ⟨2, 2⟩ stream).proposals

/-- Some rule for every proposal. -/
def toRule (proposal : LearnedRule) : FastPathRule where
  pattern := ⟨"AnalyticalIntent", proposal.scope⟩
  targetCapability := ⟨"cap-sales-weekly"⟩
  fieldMapping := []
  conditions := []

def installed : FastPathRuleSet :=
  FastPathRuleSet.install [] (proposals.map fun proposal => (toRule proposal, proposal))

end SampleStream

/-- Two patterns mature with the same counts: both rules have one id, and are disabled
together. -/
theorem disabled_together :
    SampleStream.proposals.map LearnedRule.id = ["lr-fp-2-2", "lr-fp-2-2"] ∧
      (SampleStream.installed.disableLearned "lr-fp-2-2").rules.map TaggedRule.enabled =
        [false, false] ∧
      ¬ FastPathRuleSet.OneAtATime SampleStream.proposals := by
  have hids : SampleStream.proposals.map LearnedRule.id = ["lr-fp-2-2", "lr-fp-2-2"] := by
    decide +kernel
  refine ⟨hids, by decide +kernel, fun h => ?_⟩
  have hnodup := h.nodup
  rw [hids] at hnodup
  exact absurd hnodup (by decide)

end FastPathMiner

end Aaf
