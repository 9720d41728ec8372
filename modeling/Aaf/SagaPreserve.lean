import Aaf.SagaRecovery

/-!
# Preserve lists

A recovery rule names the steps to keep. The specification's example names them by number,
the saga guide by the label `step-N`. The executor keeps the entries that parse as numbers
and drops all others without a word, so a label compensates the step its author asked to
keep.

`preserve_honoured_iff`: the preserve list of a partial compensation is honoured exactly
when every entry is the number of a step, or the label of a step that had not completed
or that is listed by number as well.
-/

namespace Aaf

/-- A step's number, as in the specification's example: `2`. -/
def stepNumber (n : UInt32) : String := toString n.toNat

/-- A step's label, as in the saga guide: `step-2`. -/
def stepLabel (n : UInt32) : String := "step-" ++ stepNumber n

/-- An entry of a preserve list names the steps with a number. -/
def NamesStep (entry : String) (n : UInt32) : Prop := entry = stepNumber n ∨ entry = stepLabel n

theorem parseU32_stepNumber (n : UInt32) : Text.parseU32 (stepNumber n) = some n :=
  Text.parseU32_toString n

theorem parseU32_stepLabel (n : UInt32) : Text.parseU32 (stepLabel n) = none := by
  have hlist : (stepLabel n).toList = 's' :: ("tep-".toList ++ (stepNumber n).toList) := by
    rw [stepLabel, String.toList_append]
    rfl
  exact Text.parseU32_of_not_digit hlist (by decide) (by decide)

/-- A number names one step. -/
theorem stepNumber_injective : Function.Injective stepNumber := by
  intro n m h
  have hparse := parseU32_stepNumber n
  rw [h, parseU32_stepNumber m] at hparse
  exact (Option.some.inj hparse).symm

theorem stepLabel_injective : Function.Injective stepLabel := by
  intro n m h
  have hlist := congrArg String.toList h
  rw [stepLabel, stepLabel, String.toList_append, String.toList_append] at hlist
  exact stepNumber_injective (String.toList_injective (List.append_cancel_left hlist))

/-- An entry that names a step and parses is a number. -/
theorem NamesStep.eq_stepNumber {entry : String} {m n : UInt32} (hname : NamesStep entry m)
    (hparse : Text.parseU32 entry = some n) : entry = stepNumber n := by
  rcases hname with rfl | rfl
  · rw [parseU32_stepNumber, Option.some.injEq] at hparse
    rw [hparse]
  · rw [parseU32_stepLabel] at hparse
    cases hparse

theorem stepLabel_ne_stepNumber (n m : UInt32) : stepLabel n ≠ stepNumber m := by
  intro h
  have hparse := parseU32_stepLabel n
  rw [h, parseU32_stepNumber] at hparse
  cases hparse

/-- Which steps the executor keeps for a rule. -/
theorem mem_preserveSet_iff {rule : RecoveryRule} {n : UInt32} :
    n ∈ (RecoveryDecision.apply rule).preserveSet ↔
      ∃ entry ∈ rule.preserve, Text.parseU32 entry = some n :=
  List.mem_filterMap

namespace SagaExecutor

variable {ω : Type} {exec : SagaExecutor ω} {defn : SagaDefinition}

/-- The run fails at `step`, a rule matches, and partial compensation ends with these lists. -/
structure RecoversPartially (exec : SagaExecutor ω) (defn : SagaDefinition) (w : ω)
    (pre : List SagaStep) (step : SagaStep) (post : List SagaStep) (fw : Forward ω)
    (tag : String) (rule : RecoveryRule) (compensated preserved : List UInt32) : Prop
    extends FailsAt exec defn w pre step post fw tag where
  rule_eq : decideRecovery tag step.onFailure = .apply rule
  action_eq : rule.action = .partialCompensation
  result_eq : (exec.run defn w).result =
    .ok (.failed step.step .partialCompensation compensated preserved)

/-- The preserve list of a rule is honoured by a run that ended with this log and these
lists: the completed steps it names, and no others, are preserved and not taken back, and
every entry names a step. -/
structure Honoured (defn : SagaDefinition) (rule : RecoveryRule) (log : List SagaEvent)
    (compensated preserved : List UInt32) : Prop where
  preserved_iff : ∀ s ∈ completedSteps log,
    s.step ∈ preserved ↔ ∃ entry ∈ rule.preserve, NamesStep entry s.step
  not_compensated : ∀ s ∈ completedSteps log, s.step ∈ preserved →
    s.step ∉ compensated ∧ ∀ t ∈ compensationCalls log, t.step ≠ s.step
  known : ∀ entry ∈ rule.preserve, ∃ s ∈ defn.steps, NamesStep entry s.step

section Unwinding

variable {preserveSet : List UInt32} {r₀ : SagaRun ω} {l : List UInt32} {u : Unwind ω}

/-- A partial compensation preserves the steps of the preserve set. -/
theorem Unwound.mem_preserved_iff
    (h : Unwound defn .partialCompensation preserveSet r₀ l u) {n : UInt32} (hn : n ∈ l) :
    n ∈ u.preserved ↔ n ∈ preserveSet := by
  rw [h.preserved_eq, List.mem_filter, keeps, decide_eq_true_eq, and_iff_right rfl,
    and_iff_right hn]

/-- What it preserves it does not take back. -/
theorem Unwound.not_compensated
    (h : Unwound defn .partialCompensation preserveSet r₀ l u) {n : UInt32}
    (hn : n ∈ u.preserved) :
    n ∉ u.compensated ∧ ∀ t ∈ compensationCalls u.run.log, t.step ≠ n := by
  have hkeep : keeps .partialCompensation preserveSet n = true := by
    rw [h.preserved_eq, List.mem_filter] at hn
    exact hn.2
  refine ⟨fun hcomp => ?_, fun t ht heq => ?_⟩
  · -- the preserved steps are all the kept ones, so none is left among the others
    have hcount := h.perm.countP_eq (keeps .partialCompensation preserveSet)
    rw [List.countP_append, List.countP_append] at hcount
    have hall : u.preserved.countP (keeps .partialCompensation preserveSet) =
        l.countP (keeps .partialCompensation preserveSet) := by
      rw [h.preserved_eq, List.countP_filter]
      simp only [Bool.and_self]
    have hpos : 0 < u.compensated.countP (keeps .partialCompensation preserveSet) :=
      List.countP_pos_iff.mpr ⟨n, hcomp, hkeep⟩
    omega
  · rw [h.calls_eq, List.mem_filterMap] at ht
    obtain ⟨m, hm, hundo⟩ := ht
    rw [List.mem_filter, ← (undoStep_eq_some hundo).1, heq, hkeep] at hm
    cases hm.2

end Unwinding

section Preserve

variable {w : ω} {pre post : List SagaStep} {step : SagaStep} {fw : Forward ω} {tag : String}
  {rule : RecoveryRule} {compensated preserved : List UInt32}

/-- The rollback behind a partial recovery: the lists it ended with, and the completed
steps it took back. -/
theorem RecoversPartially.unwound
    (h : exec.RecoversPartially defn w pre step post fw tag rule compensated preserved) :
    ∃ (r₀ : SagaRun ω) (u : Unwind ω), Unwound defn .partialCompensation
        (RecoveryDecision.apply rule).preserveSet r₀ fw.completed.reverse u ∧
      u.compensated = compensated ∧ u.preserved = preserved ∧
      compensationCalls u.run.log = compensationCalls (exec.run defn w).run.log ∧
      (completedSteps (exec.run defn w).run.log).map (·.step) = fw.completed := by
  have haction : (decideRecovery tag step.onFailure).action = .partialCompensation := by
    rw [h.rule_eq]
    exact h.action_eq
  have hrun := h.run_eq_rollBack (Or.inr haction)
  have hresult := h.result_eq
  rw [hrun] at hresult ⊢
  rw [h.rule_eq] at haction hresult ⊢
  rcases h.rollBack_end (.apply rule) with
    ⟨-, r₀, u, hr₀, hunwound, hend⟩ | ⟨-, n, e, hend, herr, -⟩
  · rw [hend] at hresult ⊢
    rw [haction] at hunwound
    injection hresult with houtcome
    injection houtcome with _ _ hcomp hpres
    refine ⟨r₀, u, hunwound, hcomp, hpres, rfl, ?_⟩
    change (completedSteps u.run.log).map (·.step) = _
    rw [hunwound.completed_eq, hr₀, (afterFailure_log h.failed_ne_ok).1,
      h.reached.progress.completed_eq]
  · rw [hend, herr] at hresult
    cases hresult

/-- **Preserve lists.** A partial compensation honours the preserve list of its rule exactly
when each entry is the number of a step, or the label of a step that is listed by number
as well or had not completed. -/
theorem preserve_honoured_iff
    (h : exec.RecoversPartially defn w pre step post fw tag rule compensated preserved) :
    Honoured defn rule (exec.run defn w).run.log compensated preserved ↔
      ∀ entry ∈ rule.preserve, ∃ s ∈ defn.steps, entry = stepNumber s.step ∨
        (entry = stepLabel s.step ∧
          (stepNumber s.step ∈ rule.preserve ∨ s.step ∉ fw.completed)) := by
  obtain ⟨r₀, u, hunwound, rfl, rfl, hcalls, hcompleted⟩ := h.unwound
  have hmem : ∀ n ∈ fw.completed, (n ∈ u.preserved ↔
      ∃ entry ∈ rule.preserve, Text.parseU32 entry = some n) := by
    intro n hn
    rw [hunwound.mem_preserved_iff (List.mem_reverse.mpr hn), mem_preserveSet_iff]
  constructor
  · intro hhonoured entry hentry
    obtain ⟨s, hs, hname | hname⟩ := hhonoured.known entry hentry
    · exact ⟨s, hs, Or.inl hname⟩
    refine ⟨s, hs, Or.inr ⟨hname, ?_⟩⟩
    by_cases hdone : s.step ∈ fw.completed
    · -- the label names a completed step: what preserves it is an entry with its number
      refine Or.inl ?_
      obtain ⟨t, ht, hstep⟩ := List.mem_map.mp (hcompleted ▸ hdone)
      have hpreserved := (hhonoured.preserved_iff t ht).mpr ⟨entry, hentry, Or.inr (hstep ▸ hname)⟩
      obtain ⟨number, hnumber, hparse⟩ := (hmem _ hdone).mp (hstep ▸ hpreserved)
      obtain ⟨s', -, hname'⟩ := hhonoured.known number hnumber
      rw [← hname'.eq_stepNumber hparse]
      exact hnumber
    · exact Or.inr hdone
  · intro hentries
    refine ⟨fun t ht => ?_, fun t ht hpreserved => ?_, fun entry hentry => ?_⟩
    · have hdone : t.step ∈ fw.completed := hcompleted ▸ List.mem_map_of_mem ht
      rw [hmem _ hdone]
      constructor
      · rintro ⟨entry, hentry, hparse⟩
        obtain ⟨s, -, hname⟩ := hentries entry hentry
        have hname' : NamesStep entry s.step := hname.imp_right And.left
        exact ⟨entry, hentry, Or.inl (hname'.eq_stepNumber hparse)⟩
      · rintro ⟨entry, hentry, rfl | rfl⟩
        · exact ⟨_, hentry, parseU32_stepNumber _⟩
        · obtain ⟨s, -, hname | ⟨hname, hlisted | hout⟩⟩ := hentries _ hentry
          · exact absurd hname (stepLabel_ne_stepNumber _ _)
          · rw [← stepLabel_injective hname] at hlisted
            exact ⟨_, hlisted, parseU32_stepNumber _⟩
          · rw [← stepLabel_injective hname] at hout
            exact absurd hdone hout
    · rw [← hcalls]
      exact hunwound.not_compensated hpreserved
    · obtain ⟨s, hs, hname | ⟨hname, -⟩⟩ := hentries entry hentry
      · exact ⟨s, hs, Or.inl hname⟩
      · exact ⟨s, hs, Or.inr hname⟩

end Preserve

/-- Two steps; the second compensates partially on the tag `outage` and preserves `entry`. -/
def preservingSaga (entry : String) : SagaDefinition :=
  ⟨"x", none, [sampleStep 1 none,
    sampleStep 2 (some ⟨"intelligent", [⟨"outage", .partialCompensation, [entry]⟩]⟩)]⟩

/-- The number of the first step preserves it. -/
theorem preservingSaga_honoured :
    Honoured (preservingSaga "1") ⟨"outage", .partialCompensation, ["1"]⟩
      ((sampleExecutor "outage" (.ok ())).run (preservingSaga "1") ()).run.log [] [1] := by
  have hrun : RecoversPartially (sampleExecutor "outage" (.ok ())) (preservingSaga "1") ()
      [sampleStep 1 none]
      (sampleStep 2 (some ⟨"intelligent", [⟨"outage", .partialCompensation, ["1"]⟩]⟩)) []
      ⟨⟨.running, (), [.ran (sampleStep 1 none) .ok]⟩, [1]⟩ "outage"
      ⟨"outage", .partialCompensation, ["1"]⟩ [] [1] :=
    ⟨⟨rfl, rfl, rfl⟩, by decide, rfl, by decide⟩
  refine (preserve_honoured_iff hrun).mpr fun entry hentry => ?_
  exact ⟨sampleStep 1 none, by decide, Or.inl (List.mem_singleton.mp hentry)⟩

/-- Its label does not: the first step is compensated. -/
theorem preservingSaga_label_not_honoured :
    ((sampleExecutor "outage" (.ok ())).run (preservingSaga "step-1") ()).result =
        .ok (.failed 2 .partialCompensation [1] []) ∧
      ¬ Honoured (preservingSaga "step-1") ⟨"outage", .partialCompensation, ["step-1"]⟩
        ((sampleExecutor "outage" (.ok ())).run (preservingSaga "step-1") ()).run.log [1] [] := by
  refine ⟨by decide, fun h => ?_⟩
  have hpreserved := (h.preserved_iff (sampleStep 1 none) (by decide)).mpr
    ⟨"step-1", by decide, Or.inr (by decide)⟩
  cases hpreserved

end SagaExecutor

end Aaf
