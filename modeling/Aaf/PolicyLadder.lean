import Aaf.Policy

/-!
# The severity ladder

What `PolicyEngine::evaluate` decides depends on which violations the applicable rules
report, not on their order: each class of decision says what is, and what is not, among
them. So more rules never make a decision laxer, whatever the rules are.
-/

namespace Aaf

/-- The class of a decision, without its violations. -/
inductive DecisionClass : Type where
  | allow : DecisionClass
  | allowWithWarnings : DecisionClass
  | requireApproval : DecisionClass
  | deny : DecisionClass
  deriving DecidableEq, Repr

/-- How strict a class is. -/
def DecisionClass.rank : DecisionClass → ℕ
  | allow => 0
  | allowWithWarnings => 1
  | requireApproval => 2
  | deny => 3

namespace PolicyDecision

/-- The class of a decision. -/
def cls : PolicyDecision → DecisionClass
  | allow => .allow
  | allowWithWarnings _ => .allowWithWarnings
  | requireApproval _ => .requireApproval
  | deny _ => .deny

/-- The violations a decision carries. -/
def violations : PolicyDecision → List PolicyViolation
  | allow => []
  | allowWithWarnings vs => vs
  | requireApproval vs => vs
  | deny vs => vs

end PolicyDecision

/-- The severities from which on a violation denies. -/
def PolicySeverity.Blocking (s : PolicySeverity) : Prop := s = .error ∨ s = .fatal

instance (s : PolicySeverity) : Decidable s.Blocking :=
  inferInstanceAs (Decidable (s = .error ∨ s = .fatal))

namespace PolicyEngine

variable {vs vs' : List PolicyViolation}

/-! ## What each class says -/

/-- The largest severity blocks when one of them does. -/
theorem blocking_foldl_max (severities : List PolicySeverity) (s : PolicySeverity) :
    (severities.foldl PolicySeverity.max s).Blocking ↔
      s.Blocking ∨ ∃ t ∈ severities, t.Blocking := by
  have hmax : ∀ s t : PolicySeverity, (s.max t).Blocking ↔ s.Blocking ∨ t.Blocking := by
    intro s t
    cases s <;> cases t <;> decide
  induction severities generalizing s with
  | nil => simp
  | cons t severities ih =>
    rw [List.foldl_cons]
    refine (ih _).trans ?_
    simp only [hmax, List.mem_cons, exists_eq_or_imp, or_assoc]

/-- The ladder, on what is among the violations. -/
theorem decisionOf_eq (vs : List PolicyViolation) :
    decisionOf vs =
      if vs = [] then .allow
      else if ∃ v ∈ vs, v.severity.Blocking then .deny vs
      else if ∃ v ∈ vs, v.kind = .sideEffectGate then .requireApproval vs
      else .allowWithWarnings vs := by
  have hdeny : (let maxSeverity := (vs.map (·.severity)).foldl PolicySeverity.max .info
      maxSeverity = .error ∨ maxSeverity = .fatal) ↔ ∃ v ∈ vs, v.severity.Blocking := by
    refine (blocking_foldl_max (vs.map (·.severity)) .info).trans ?_
    have hinfo : ¬ PolicySeverity.Blocking .info := by decide
    simp only [hinfo, false_or, List.mem_map, exists_exists_and_eq_and]
  have hgate : vs.any (fun v => v.kind = .sideEffectGate) = true ↔
      ∃ v ∈ vs, v.kind = .sideEffectGate := by
    simp
  simp only [decisionOf, List.isEmpty_iff, hdeny, hgate]

theorem decisionOf_violations (vs : List PolicyViolation) : (decisionOf vs).violations = vs := by
  rw [decisionOf_eq]
  split_ifs with hempty
  · exact hempty.symm
  · rfl
  · rfl
  · rfl

theorem cls_eq_deny_iff :
    (decisionOf vs).cls = .deny ↔ ∃ v ∈ vs, v.severity.Blocking := by
  rw [decisionOf_eq]
  split_ifs with hempty hblocking hgate
  · simp [hempty, PolicyDecision.cls]
  · simp [hblocking, PolicyDecision.cls]
  · simp [hblocking, PolicyDecision.cls]
  · simp [hblocking, PolicyDecision.cls]

theorem cls_eq_requireApproval_iff :
    (decisionOf vs).cls = .requireApproval ↔
      (¬ ∃ v ∈ vs, v.severity.Blocking) ∧ ∃ v ∈ vs, v.kind = .sideEffectGate := by
  rw [decisionOf_eq]
  split_ifs with hempty hblocking hgate
  · simp [hempty, PolicyDecision.cls]
  · simp [hblocking, PolicyDecision.cls]
  · simp [hblocking, hgate, PolicyDecision.cls]
  · simp [hgate, PolicyDecision.cls]

theorem cls_eq_allow_iff : (decisionOf vs).cls = .allow ↔ vs = [] := by
  rw [decisionOf_eq]
  split_ifs with hempty
  · simp [hempty, PolicyDecision.cls]
  · simp [hempty, PolicyDecision.cls]
  · simp [hempty, PolicyDecision.cls]
  · simp [hempty, PolicyDecision.cls]

/-- More violations never make a decision laxer. -/
theorem rank_decisionOf_mono (h : vs ⊆ vs') :
    (decisionOf vs).cls.rank ≤ (decisionOf vs').cls.rank := by
  rcases hcls : (decisionOf vs).cls with _ | _ | _ | _
  · exact Nat.zero_le _
  · -- something is reported, so that more of it does not allow
    have hne : (decisionOf vs').cls ≠ .allow := by
      intro hallow
      rw [cls_eq_allow_iff.mp hallow, List.subset_nil] at h
      rw [cls_eq_allow_iff.mpr h] at hcls
      cases hcls
    generalize (decisionOf vs').cls = c at hne
    cases c with
    | allow => exact absurd rfl hne
    | _ => decide
  · obtain ⟨-, v, hv, hgate⟩ := cls_eq_requireApproval_iff.mp hcls
    by_cases hblocking : ∃ v ∈ vs', v.severity.Blocking
    · rw [cls_eq_deny_iff.mpr hblocking]
      decide
    · rw [cls_eq_requireApproval_iff.mpr ⟨hblocking, v, h hv, hgate⟩]
  · obtain ⟨v, hv, hblocking⟩ := cls_eq_deny_iff.mp hcls
    rw [cls_eq_deny_iff.mpr ⟨v, h hv, hblocking⟩]

/-! ## Rules -/

variable {hook : PolicyHook} {ctx : PolicyContext}

/-- Some rule that applies at the hook reports a violation with the property. -/
def Reports (rules : List Rule) (hook : PolicyHook) (ctx : PolicyContext)
    (P : PolicyViolation → Prop) : Prop :=
  ∃ rule ∈ rules, applies hook rule = true ∧ ∃ v, rule.evaluate ctx = some v ∧ P v

theorem reports_iff {engine : PolicyEngine} {P : PolicyViolation → Prop} :
    Reports engine.rules hook ctx P ↔ ∃ v ∈ engine.violations hook ctx, P v := by
  simp only [Reports, violations, List.mem_filterMap, List.mem_filter]
  refine ⟨?_, ?_⟩
  · rintro ⟨rule, hrule, happlies, v, hv, hP⟩
    exact ⟨v, ⟨rule, ⟨hrule, happlies⟩, hv⟩, hP⟩
  · rintro ⟨v, ⟨rule, ⟨hrule, happlies⟩, hv⟩, hP⟩
    exact ⟨rule, hrule, happlies, v, hv, hP⟩

theorem violations_eq_nil_iff {engine : PolicyEngine} :
    engine.violations hook ctx = [] ↔ ¬ Reports engine.rules hook ctx fun _ => True := by
  rw [reports_iff, List.eq_nil_iff_forall_not_mem]
  simp only [and_true, not_exists]

theorem violations_perm {engine engine' : PolicyEngine} (h : engine.rules.Perm engine'.rules) :
    (engine.violations hook ctx).Perm (engine'.violations hook ctx) :=
  (h.filter _).filterMap _

theorem violations_addRule (engine : PolicyEngine) (rule : Rule) :
    engine.violations hook ctx ⊆ (engine.addRule rule).violations hook ctx := by
  rw [violations, violations, addRule, List.filter_append, List.filterMap_append]
  exact List.subset_append_left _ _

theorem evaluate_cls_perm {engine engine' : PolicyEngine}
    (h : engine.rules.Perm engine'.rules) :
    (engine.evaluate hook ctx).cls = (engine'.evaluate hook ctx).cls := by
  have hrank : (engine.evaluate hook ctx).cls.rank = (engine'.evaluate hook ctx).cls.rank :=
    Nat.le_antisymm (rank_decisionOf_mono (violations_perm h).subset)
      (rank_decisionOf_mono (violations_perm h.symm).subset)
  generalize (engine.evaluate hook ctx).cls = c at hrank ⊢
  generalize (engine'.evaluate hook ctx).cls = c' at hrank ⊢
  cases c <;> cases c' <;> first | rfl | cases hrank

/-- **The ladder.** For all rules, hooks and contexts: the order of the rules changes
neither the class of the decision nor the violations, as a multiset; one more rule never
makes the class laxer; and each class but the warnings says what the applicable rules
report. -/
theorem evaluate_ladder (engine : PolicyEngine) (hook : PolicyHook) (ctx : PolicyContext) :
    (∀ engine' : PolicyEngine, engine'.rules.Perm engine.rules →
      (engine'.evaluate hook ctx).cls = (engine.evaluate hook ctx).cls ∧
        (engine'.evaluate hook ctx).violations.Perm (engine.evaluate hook ctx).violations) ∧
    (∀ rule, (engine.evaluate hook ctx).cls.rank ≤
      ((engine.addRule rule).evaluate hook ctx).cls.rank) ∧
    ((engine.evaluate hook ctx).cls = .deny ↔
      Reports engine.rules hook ctx fun v => v.severity = .error ∨ v.severity = .fatal) ∧
    ((engine.evaluate hook ctx).cls = .requireApproval ↔
      (¬ Reports engine.rules hook ctx fun v => v.severity = .error ∨ v.severity = .fatal) ∧
        Reports engine.rules hook ctx fun v => v.kind = .sideEffectGate) ∧
    ((engine.evaluate hook ctx).cls = .allow ↔
      ¬ Reports engine.rules hook ctx fun _ => True) := by
  refine ⟨fun engine' hperm => ⟨evaluate_cls_perm hperm, ?_⟩, fun rule => ?_, ?_, ?_, ?_⟩
  · rw [evaluate, evaluate, decisionOf_violations, decisionOf_violations]
    exact violations_perm hperm
  · exact rank_decisionOf_mono (violations_addRule engine rule)
  · rw [reports_iff]
    exact cls_eq_deny_iff
  · rw [reports_iff, reports_iff]
    exact cls_eq_requireApproval_iff
  · rw [← violations_eq_nil_iff]
    exact cls_eq_allow_iff

end PolicyEngine

end Aaf
