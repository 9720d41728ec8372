import Mathlib.Tactic.IntervalCases
import Mathlib.Tactic.NormNum
import Aaf.Registration

/-!
# Earned trust

`aaf-trust`: every observed event moves an agent's score, the score is looked up in the
autonomy brackets, and the promotion rules then raise, lower or hold the level. A policy
violation stays in the history, and the rules ask for it first.

`observed_lawful` says what all of this amounts to over any history of events.
-/

namespace Aaf

/-! ## Scores -/

/-- One scoring event recorded against an agent. -/
inductive ScoreEvent : Type where
  | success : ScoreEvent
  | humanOverride : ScoreEvent
  | policyViolation : ScoreEvent
  | accuracyRegression : ScoreEvent
  deriving DecidableEq, Repr

/-- `ScoreEvent::delta`. -/
def ScoreEvent.delta : ScoreEvent → F64
  | success => .finite (1 / 200)
  | humanOverride => .finite (-1 / 50)
  | policyViolation => .finite (-3 / 10)
  | accuracyRegression => .finite (-1 / 20)

namespace ScoreHistory

/-- `ScoreHistory::observe`: the score delta, and the history with the event counted. -/
def observe (h : ScoreHistory) (now : ℤ) (event : ScoreEvent) : F64 × ScoreHistory :=
  let h := { h with total := h.total + 1, lastUpdated := some now }
  match event with
  | .success => (event.delta, { h with success := h.success + 1 })
  | .humanOverride => (event.delta, { h with humanOverride := h.humanOverride + 1 })
  | .policyViolation => (event.delta, { h with policyViolations := h.policyViolations + 1 })
  | .accuracyRegression => (event.delta, h)

/-- `ScoreHistory::override_rate`. -/
def overrideRate (h : ScoreHistory) : F64 :=
  if h.total = 0 then .finite 0 else .finite h.humanOverride / .finite h.total

end ScoreHistory

/-- `TrustScore::clamped`. -/
def TrustScore.clamped (value : F64) : F64 :=
  if value = .nan then .finite 0 else value.clamp (.finite 0) (.finite 1)

/-! ## Levels -/

/-- Scores required for the levels. -/
structure AutonomyPolicy where
  l2 : F64
  l3 : F64
  l4 : F64
  l5 : F64

/-- `AutonomyPolicy::default`. -/
def AutonomyPolicy.default : AutonomyPolicy :=
  ⟨.finite (11 / 20), .finite (7 / 10), .finite (17 / 20), .finite (19 / 20)⟩

/-- `AutonomyPolicy::level_for`. -/
def AutonomyPolicy.levelFor (policy : AutonomyPolicy) (score : F64) : AutonomyLevel :=
  if F64.le policy.l5 score then .level5
  else if F64.le policy.l4 score then .level4
  else if F64.le policy.l3 score then .level3
  else if F64.le policy.l2 score then .level2
  else .level1

/-- Outcome of evaluating an agent for autonomy adjustment. -/
inductive PromotionDecision : Type where
  | promote : PromotionDecision
  | hold : PromotionDecision
  | demote : PromotionDecision
  | dropToFloor : PromotionDecision
  deriving DecidableEq, Repr

/-- Configuration of the promotion engine. -/
structure PromotionRules where
  overrideRateCeiling : F64
  overrideRateFloorForPromotion : F64
  minExecutionsForPromotion : ℕ

/-- `PromotionRules::default`. -/
def PromotionRules.default : PromotionRules := ⟨.finite (1 / 20), .finite (1 / 100), 1000⟩

/-- `PromotionRules::evaluate`. -/
def PromotionRules.evaluate (rules : PromotionRules) (current : AutonomyLevel)
    (history : ScoreHistory) : PromotionDecision :=
  if 0 < history.policyViolations then .dropToFloor
  else if F64.lt rules.overrideRateCeiling history.overrideRate then .demote
  else if current = .level5 then .hold
  else if rules.minExecutionsForPromotion ≤ history.total ∧
      F64.lt history.overrideRate rules.overrideRateFloorForPromotion then .promote
  else .hold

/-! ## Observing -/

/-- What a decision does to a score. -/
def TrustScore.adjusted (score : TrustScore) : PromotionDecision → TrustScore
  | .dropToFloor => ⟨F64.min (.finite (1 / 2)) score.value, .level1⟩
  | .demote => { score with autonomy := .fromU8 (max (score.autonomy.asU8 - 1) 1) }
  | .promote => { score with autonomy := .fromU8 (min (score.autonomy.asU8 + 1) 5) }
  | .hold => score

/-- A record with no event in it. -/
def TrustRecord.fresh : TrustRecord := ⟨.initial, ⟨0, 0, 0, 0, none⟩⟩

/-- The body of `TrustRegistry::observe`, on the agent's record. -/
def TrustRecord.observe (policy : AutonomyPolicy) (rules : PromotionRules) (record : TrustRecord)
    (now : ℤ) (event : ScoreEvent) : (TrustScore × PromotionDecision) × TrustRecord :=
  let (delta, history) := record.history.observe now event
  let value := TrustScore.clamped (record.score.value + delta)
  let autonomy := policy.levelFor value
  let decision := rules.evaluate autonomy history
  let score := TrustScore.adjusted ⟨value, autonomy⟩ decision
  ((score, decision), ⟨score, history⟩)

namespace TrustRegistry

/-- The record of an agent; one that is not there yet is fresh. -/
def record (t : TrustRegistry) (agent : AgentId) : TrustRecord := (t.lookup agent).getD .fresh

/-- `TrustRegistry::observe`. A registry always has the default policy and rules. -/
def observe (t : TrustRegistry) (now : ℤ) (agent : AgentId) (event : ScoreEvent) :
    (TrustScore × PromotionDecision) × TrustRegistry :=
  let (reply, record) := (t.record agent).observe .default .default now event
  (reply, t.insert agent record)

theorem get_eq_record (t : TrustRegistry) (agent : AgentId) :
    t.get agent = (t.record agent).score := by
  rw [get, record]
  rcases t.lookup agent with _ | record
  · rfl
  · rfl

theorem record_insert_self (t : TrustRegistry) (agent : AgentId) (r : TrustRecord) :
    record (t.insert agent r) agent = r := by
  rw [record, AList.lookup_insert]
  rfl

theorem record_insert_ne {t : TrustRegistry} {agent other : AgentId} (h : agent ≠ other)
    (r : TrustRecord) : record (t.insert other r) agent = t.record agent := by
  rw [record, record, AList.lookup_insert_ne h]

theorem record_register_self (t : TrustRegistry) (agent : AgentId) :
    (t.register agent).record agent = .fresh := record_insert_self t agent _

theorem record_register_ne {t : TrustRegistry} {agent other : AgentId} (h : agent ≠ other) :
    (t.register other).record agent = t.record agent := record_insert_ne h _

theorem record_observe_self (t : TrustRegistry) (now : ℤ) (agent : AgentId) (event : ScoreEvent) :
    (t.observe now agent event).2.record agent =
      ((t.record agent).observe .default .default now event).2 := record_insert_self t agent _

theorem record_observe_ne {t : TrustRegistry} {agent other : AgentId} (h : agent ≠ other)
    (now : ℤ) (event : ScoreEvent) :
    (t.observe now other event).2.record agent = t.record agent := record_insert_ne h _

end TrustRegistry

/-! ## One event -/

namespace ScoreHistory

variable (h : ScoreHistory) (now : ℤ) (event : ScoreEvent)

@[simp]
theorem observe_delta : (h.observe now event).1 = event.delta := by
  cases event <;> rfl

@[simp]
theorem observe_total : (h.observe now event).2.total = h.total + 1 := by
  cases event <;> rfl

@[simp]
theorem observe_humanOverride :
    (h.observe now event).2.humanOverride =
      h.humanOverride + if event = .humanOverride then 1 else 0 := by
  cases event <;> rfl

@[simp]
theorem observe_policyViolations :
    (h.observe now event).2.policyViolations =
      h.policyViolations + if event = .policyViolation then 1 else 0 := by
  cases event <;> rfl

theorem overrideRate_eq : h.overrideRate = .finite (h.humanOverride / h.total) := by
  rw [overrideRate]
  by_cases htotal : h.total = 0
  · simp [htotal]
  · rw [if_neg htotal, F64.finite_div _ (Nat.cast_ne_zero.mpr htotal)]

end ScoreHistory

theorem PromotionRules.evaluate_default (current : AutonomyLevel) (h : ScoreHistory) :
    PromotionRules.default.evaluate current h =
      if 0 < h.policyViolations then .dropToFloor
      else if (1 / 20 : ℚ) < h.humanOverride / h.total then .demote
      else if current = .level5 then .hold
      else if 1000 ≤ h.total ∧ (h.humanOverride / h.total : ℚ) < 1 / 100 then .promote
      else .hold := by
  simp [evaluate, default, h.overrideRate_eq]

/-- The rules drop to the floor on account of a violation only. -/
theorem PromotionRules.evaluate_eq_dropToFloor_iff (current : AutonomyLevel) (h : ScoreHistory) :
    PromotionRules.default.evaluate current h = .dropToFloor ↔ 0 < h.policyViolations := by
  rw [evaluate_default]
  split_ifs with hviolated
  · simp [hviolated]
  · simp [hviolated]
  · simp [hviolated]
  · simp [hviolated]
  · simp [hviolated]

theorem TrustScore.adjusted_value {score : TrustScore} {decision : PromotionDecision}
    (h : decision ≠ .dropToFloor) : (score.adjusted decision).value = score.value := by
  cases decision with
  | dropToFloor => exact absurd rfl h
  | _ => rfl

/-- An event moves a score within the unit interval. -/
theorem clamped_add_delta (q : ℚ) (event : ScoreEvent) :
    ∃ q' : ℚ, TrustScore.clamped (.finite q + event.delta) = .finite q' ∧ 0 ≤ q' ∧ q' ≤ 1 := by
  obtain ⟨d, hd⟩ : ∃ d, event.delta = .finite d := by
    cases event <;> exact ⟨_, rfl⟩
  refine ⟨max 0 (min 1 (q + d)), ?_, le_max_left _ _, ?_⟩
  · rw [hd, F64.finite_add, TrustScore.clamped, if_neg (by simp),
      F64.finite_clamp _ zero_le_one]
  · exact max_le zero_le_one (min_le_left _ _)

theorem asU8_le (level : AutonomyLevel) : 1 ≤ level.asU8 ∧ level.asU8 ≤ 5 := by
  cases level <;> decide

theorem asU8_fromU8 {n : ℕ} (hlow : 1 ≤ n) (hhigh : n ≤ 5) : (AutonomyLevel.fromU8 n).asU8 = n := by
  interval_cases n <;> rfl

/-! ## Histories -/

/-- The share of human overrides among the events. -/
def overrideRate (events : List ScoreEvent) : ℚ := events.count .humanOverride / events.length

/-- The autonomy is at most one level off the bracket of the score: above it only after
a thousand events with less than one override in a hundred, below it only with more than
one in twenty. -/
structure NearBracket (events : List ScoreEvent) (score : TrustScore) : Prop where
  le : score.autonomy.asU8 ≤ (AutonomyPolicy.default.levelFor score.value).asU8 + 1
  ge : (AutonomyPolicy.default.levelFor score.value).asU8 ≤ score.autonomy.asU8 + 1
  above : (AutonomyPolicy.default.levelFor score.value).asU8 < score.autonomy.asU8 →
    1000 ≤ events.length ∧ overrideRate events < 1 / 100
  below : score.autonomy.asU8 < (AutonomyPolicy.default.levelFor score.value).asU8 →
    1 / 20 < overrideRate events

/-- At the floor: the first level, with at most half of the score. -/
def Floored (score : TrustScore) : Prop :=
  score.autonomy = .level1 ∧ F64.le score.value (.finite (1 / 2)) = true

/-- The record after the events. -/
structure Earned (events : List ScoreEvent) (record : TrustRecord) : Prop where
  total : record.history.total = events.length
  overrides : record.history.humanOverride = events.count .humanOverride
  violations : record.history.policyViolations = events.count .policyViolation
  value : ∃ q : ℚ, record.score.value = .finite q ∧ 0 ≤ q ∧ q ≤ 1
  floored : .policyViolation ∈ events → Floored record.score
  near : .policyViolation ∉ events → NearBracket events record.score

theorem earned_fresh : Earned [] .fresh := by
  refine ⟨rfl, rfl, rfl, ⟨1 / 2, rfl, by norm_num, by norm_num⟩, fun h => ?_, fun _ => ?_⟩
  · cases h
  · exact ⟨by decide +kernel, by decide +kernel, fun h => absurd h (by decide +kernel),
      fun h => absurd h (by decide +kernel)⟩

section Observe

variable {events : List ScoreEvent} {record : TrustRecord}

/-- The history after one more event counts the events. -/
theorem Earned.counts (h : Earned events record) (now : ℤ) (event : ScoreEvent) :
    (record.history.observe now event).2.total = (events ++ [event]).length ∧
      (record.history.observe now event).2.humanOverride =
        (events ++ [event]).count .humanOverride ∧
      (record.history.observe now event).2.policyViolations =
        (events ++ [event]).count .policyViolation := by
  simp [h.total, h.overrides, h.violations, List.count_singleton]

/-- A level that was not at the floor ends at most one off its bracket. -/
theorem nearBracket_adjusted (value : F64) {history : ScoreHistory}
    (htotal : history.total = events.length)
    (hoverrides : history.humanOverride = events.count .humanOverride)
    (hviolations : history.policyViolations = 0) :
    NearBracket events
      (TrustScore.adjusted ⟨value, AutonomyPolicy.default.levelFor value⟩
        (PromotionRules.default.evaluate (AutonomyPolicy.default.levelFor value) history)) := by
  rw [PromotionRules.evaluate_default, hviolations, if_neg (lt_irrefl 0), htotal, hoverrides]
  have hrange := asU8_le (AutonomyPolicy.default.levelFor value)
  split_ifs with hdemote hlast hpromote
  · have hlevel := asU8_fromU8 (le_max_right ((AutonomyPolicy.default.levelFor value).asU8 - 1) 1)
      (by omega)
    refine ⟨?_, ?_, fun habove => ?_, fun _ => hdemote⟩
    · simp only [TrustScore.adjusted, hlevel]
      omega
    · simp only [TrustScore.adjusted, hlevel]
      omega
    · simp only [TrustScore.adjusted, hlevel] at habove
      omega
  · exact ⟨Nat.le_succ _, Nat.le_succ _, fun h => absurd h (lt_irrefl _),
      fun h => absurd h (lt_irrefl _)⟩
  · have hlevel := asU8_fromU8
      (show 1 ≤ min ((AutonomyPolicy.default.levelFor value).asU8 + 1) 5 by omega)
      (min_le_right _ _)
    refine ⟨?_, ?_, fun _ => hpromote, fun hbelow => ?_⟩
    · simp only [TrustScore.adjusted, hlevel]
      omega
    · simp only [TrustScore.adjusted, hlevel]
      omega
    · simp only [TrustScore.adjusted, hlevel] at hbelow
      omega
  · exact ⟨Nat.le_succ _, Nat.le_succ _, fun h => absurd h (lt_irrefl _),
      fun h => absurd h (lt_irrefl _)⟩

/-- **One more event.** The record after it, and what `observe` returns. -/
theorem Earned.observe (h : Earned events record) (now : ℤ) (event : ScoreEvent) :
    Earned (events ++ [event]) (record.observe .default .default now event).2 ∧
      (.policyViolation ∈ events ++ [event] →
        (record.observe .default .default now event).1.2 = .dropToFloor) := by
  obtain ⟨q, hq, -, -⟩ := h.value
  obtain ⟨q', hq', hlow, hhigh⟩ := clamped_add_delta q event
  obtain ⟨htotal, hoverrides, hviolations⟩ := h.counts now event
  rw [← hq] at hq'
  by_cases hviolated : .policyViolation ∈ events ++ [event]
  · have hdrop : ∀ level, PromotionRules.default.evaluate level
        (record.history.observe now event).2 = .dropToFloor := by
      intro level
      rw [PromotionRules.evaluate_eq_dropToFloor_iff, hviolations]
      exact List.count_pos_iff.mpr hviolated
    refine ⟨⟨htotal, hoverrides, hviolations, ⟨min (1 / 2) q', ?_, ?_, ?_⟩, fun _ => ?_,
      fun hnot => absurd hviolated hnot⟩, fun _ => ?_⟩
    · simp only [TrustRecord.observe, ScoreHistory.observe_delta, hdrop, TrustScore.adjusted, hq',
        F64.finite_min]
    · exact le_min (by norm_num) hlow
    · exact (min_le_right _ _).trans hhigh
    · simp [Floored, TrustRecord.observe, hdrop, TrustScore.adjusted, hq']
    · simp only [TrustRecord.observe, hdrop]
  · have hnone : (record.history.observe now event).2.policyViolations = 0 := by
      rw [hviolations]
      exact List.count_eq_zero.mpr hviolated
    have hdecision : ∀ level, PromotionRules.default.evaluate level
        (record.history.observe now event).2 ≠ .dropToFloor := by
      intro level
      rw [ne_eq, PromotionRules.evaluate_eq_dropToFloor_iff, hnone]
      exact lt_irrefl 0
    refine ⟨⟨htotal, hoverrides, hviolations, ⟨q', ?_, hlow, hhigh⟩,
      fun hmem => absurd hmem hviolated, fun _ => ?_⟩, fun hmem => absurd hmem hviolated⟩
    · rw [← hq', ← record.history.observe_delta now event]
      exact TrustScore.adjusted_value (hdecision _)
    · exact nearBracket_adjusted _ htotal hoverrides hnone

end Observe

/-! ## Runs -/

/-- One call of `TrustRegistry::observe`. -/
structure ScoreCall where
  now : ℤ
  agent : AgentId
  event : ScoreEvent

namespace TrustRegistry

/-- The call, on a registry. -/
def exec (t : TrustRegistry) (call : ScoreCall) : (TrustScore × PromotionDecision) × TrustRegistry :=
  t.observe call.now call.agent call.event

/-- The events among the calls that are about an agent. -/
def eventsOf (agent : AgentId) (calls : List ScoreCall) : List ScoreEvent :=
  (calls.filter fun call => call.agent = agent).map ScoreCall.event

theorem eventsOf_concat (agent : AgentId) (calls : List ScoreCall) (call : ScoreCall) :
    eventsOf agent (calls ++ [call]) =
      if call.agent = agent then eventsOf agent calls ++ [call.event] else eventsOf agent calls := by
  by_cases h : call.agent = agent
  · simp [eventsOf, h]
  · simp [eventsOf, h]

/-- The record of an agent is what its own events have earned. -/
theorem earned_run {t : TrustRegistry} {agent : AgentId} (hfresh : t.record agent = .fresh)
    (calls : List ScoreCall) :
    Earned (eventsOf agent calls) ((Machine.run exec t calls).record agent) := by
  induction calls using List.reverseRecOn with
  | nil =>
    rw [Machine.run_nil, hfresh]
    exact earned_fresh
  | append_singleton calls call ih =>
    rw [Machine.run_concat, exec, eventsOf_concat]
    by_cases hagent : call.agent = agent
    · subst hagent
      rw [if_pos rfl, record_observe_self]
      exact (ih.observe call.now call.event).1
    · rw [if_neg hagent, record_observe_ne (Ne.symm hagent)]
      exact ih

/-- **Bounded and sticky.** Whatever is observed of an agent, and of others, after its
record was fresh: its score stays in `[0, 1]`; from its first policy violation on, every
`observe` drops it to the floor, and there it stays; and before any violation its autonomy
is near the bracket of its score. -/
theorem observed_lawful {t : TrustRegistry} {agent : AgentId} (hfresh : t.record agent = .fresh)
    (calls : List ScoreCall) :
    InUnit ((Machine.run exec t calls).get agent).value ∧
    (.policyViolation ∈ eventsOf agent calls →
      Floored ((Machine.run exec t calls).get agent)) ∧
    (∀ now event, .policyViolation ∈ eventsOf agent calls ++ [event] →
      ((Machine.run exec t calls).observe now agent event).1.2 = .dropToFloor ∧
        Floored ((Machine.run exec t calls).observe now agent event).1.1) ∧
    (.policyViolation ∉ eventsOf agent calls →
      NearBracket (eventsOf agent calls)
        ((Machine.run exec t calls).get agent)) := by
  have hearned := earned_run hfresh calls
  rw [get_eq_record]
  refine ⟨?_, hearned.floored, fun now event hviolated => ?_, hearned.near⟩
  · obtain ⟨q, hq, hlow, hhigh⟩ := hearned.value
    rw [hq]
    simp [InUnit, hlow, hhigh]
  · obtain ⟨hnext, hdrop⟩ := hearned.observe now event
    exact ⟨hdrop hviolated, hnext.floored hviolated⟩

/-- Ten successes and a violation, observed of one agent. -/
theorem observed_lawful_violation :
    (∅ : TrustRegistry).record ⟨"expense"⟩ = .fresh ∧
      Floored (((Machine.run exec (∅ : TrustRegistry)
        (List.replicate 10 ⟨0, ⟨"expense"⟩, .success⟩)).observe 0 ⟨"expense"⟩
          .policyViolation).1.1) := by
  have hlawful := @observed_lawful ∅ ⟨"expense"⟩ rfl
    (List.replicate 10 ⟨0, ⟨"expense"⟩, .success⟩)
  exact ⟨rfl, (hlawful.2.2.1 0 .policyViolation (by simp)).2⟩

end TrustRegistry

end Aaf
