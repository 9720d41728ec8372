import Aaf.Jaccard
import Aaf.Regression

/-!
# Golden suites

`GoldenSuite::run` (`aaf-eval`) asks a provider for the output of each case and a judge for a
verdict on it. The judge that ships, `DeterministicJudge`, scores by the Jaccard similarity of
the tokens of the two texts. Two runs are compared by `RegressionReport::build`.

The three together: a candidate whose outputs are near those of the baseline, in tokens, has
scores as near, and so are the deltas and the mean delta of the report
(`report_moves_with_outputs`).

`char::is_alphanumeric` and `str::to_lowercase` go by the Unicode tables and are parameters.
-/

namespace Aaf

/-! ## The judge -/

/-- `Judge`: a verdict for the expected and the actual output. -/
abbrev Judge : Type := String → String → JudgeVerdict

/-- `DeterministicJudge`. -/
structure DeterministicJudge where
  label : String

namespace DeterministicJudge

/-- `DeterministicJudge::default`. -/
def default : DeterministicJudge := ⟨"deterministic-jaccard"⟩

section

variable (isAlphanumeric : Char → Bool) (toLowercase : String → String)

/-- `tokens`. -/
def tokens (s : String) : Finset String :=
  (((s.toList.splitOnP fun c => !isAlphanumeric c).filter fun t => !t.isEmpty).map
    fun t => toLowercase (String.ofList t)).toFinset

/-- `DeterministicJudge::judge`. -/
def judge (j : DeterministicJudge) : Judge := fun expected actual =>
  let e := tokens isAlphanumeric toLowercase expected
  let a := tokens isAlphanumeric toLowercase actual
  let score : F64 :=
    if e = ∅ ∧ a = ∅ then .finite 1
    else
      let inter : F64 := .finite (e ∩ a).card
      let union : F64 := .finite (e ∪ a).card
      if union = 0 then 0 else inter / union
  ⟨score, "jaccard over " ++ toString e.card ++ " expected / " ++ toString a.card ++
    " actual tokens", j.label⟩

variable {isAlphanumeric toLowercase}

/-- The score is the similarity. -/
theorem score_judge (j : DeterministicJudge) (expected actual : String) :
    (j.judge isAlphanumeric toLowercase expected actual).score =
      .finite (Jaccard.similarity (tokens isAlphanumeric toLowercase expected)
        (tokens isAlphanumeric toLowercase actual)) := by
  rw [judge, Jaccard.similarity]
  dsimp only
  split_ifs with hempty hunion
  · rfl
  · -- an empty union has empty sides
    have hzero := F64.finite.inj hunion
    rw [Nat.cast_eq_zero, Finset.card_eq_zero, Finset.union_eq_empty] at hzero
    exact absurd hzero hempty
  · refine F64.finite_div _ fun hzero => hunion ?_
    rw [hzero]
    rfl

end

end DeterministicJudge

/-! ## The suite -/

/-- One case in a golden suite. -/
structure GoldenCase where
  id : String
  intent : String
  expected : String
  minScore : Option F64
  deriving DecidableEq, Repr

/-- A suite of golden cases. -/
structure GoldenSuite where
  name : String
  threshold : F64
  cases : List GoldenCase
  deriving DecidableEq, Repr

/-- `GoldenError`. -/
inductive GoldenError : Type where
  | yaml (e : String) : GoldenError
  | empty : GoldenError
  deriving DecidableEq, Repr

/-- `SuiteResult::all_passed`. -/
def SuiteResult.allPassed (r : SuiteResult) : Bool := decide (r.passed = r.total)

namespace GoldenSuite

/-- `GoldenSuite::from_yaml`, by what the parser makes of the text. -/
def fromYaml (parse : String → Except String GoldenSuite) (yaml : String) :
    Except GoldenError GoldenSuite :=
  match parse yaml with
  | .error e => .error (.yaml e)
  | .ok s => if s.cases.isEmpty then .error .empty else .ok s

/-- What the loop of `run` carries. -/
structure Tallied where
  cases : List CaseResult
  totalScore : F64
  passed : ℕ

variable (suite : GoldenSuite) (provider : String → String) (judge : Judge)

/-- One case. -/
def runCase (acc : Tallied) (c : GoldenCase) : Tallied :=
  let verdict := judge c.expected (provider c.intent)
  let ok := (c.minScore.getD suite.threshold).le verdict.score
  { cases := acc.cases ++ [⟨c.id, verdict, ok⟩]
    totalScore := acc.totalScore + verdict.score
    passed := if ok then acc.passed + 1 else acc.passed }

/-- `GoldenSuite::run`. -/
def run : SuiteResult :=
  let tallied := suite.cases.foldl (suite.runCase provider judge) ⟨[], 0, 0⟩
  { suite := suite.name
    total := suite.cases.length
    passed := tallied.passed
    meanScore := if tallied.cases.isEmpty then 0
      else tallied.totalScore / .finite tallied.cases.length
    cases := tallied.cases }

/-- The result of a case. -/
def resultOf (c : GoldenCase) : CaseResult :=
  let verdict := judge c.expected (provider c.intent)
  ⟨c.id, verdict, (c.minScore.getD suite.threshold).le verdict.score⟩

/-- **The loop in closed form.** -/
theorem foldl_runCase : suite.cases.foldl (suite.runCase provider judge) ⟨[], 0, 0⟩ =
    ⟨suite.cases.map (suite.resultOf provider judge),
      (suite.cases.map fun c => (judge c.expected (provider c.intent)).score).sum,
      suite.cases.countP fun c => (suite.resultOf provider judge c).passed⟩ := by
  induction suite.cases using List.reverseRecOn with
  | nil => rfl
  | append_singleton cases c ih =>
    have hscore : ((cases ++ [c]).map fun c => (judge c.expected (provider c.intent)).score).sum =
        (cases.map fun c => (judge c.expected (provider c.intent)).score).sum +
          (judge c.expected (provider c.intent)).score := by
      rw [List.map_append, List.sum_append, List.map_singleton, List.sum_singleton]
    rw [List.foldl_concat, ih, hscore, runCase, List.map_append, List.countP_append]
    by_cases hpassed : (c.minScore.getD suite.threshold).le
      (judge c.expected (provider c.intent)).score = true
    · simp [resultOf, hpassed]
    · simp [resultOf, hpassed]

theorem cases_run :
    (suite.run provider judge).cases = suite.cases.map (suite.resultOf provider judge) := by
  rw [run, foldl_runCase]

end GoldenSuite

/-! ## Two runs of a suite -/

namespace GoldenSuite

variable {suite : GoldenSuite} {isAlphanumeric : Char → Bool} {toLowercase : String → String}
  {j : DeterministicJudge} {before after : String → String} {δ : ℚ}

/-- The scores of two runs, looked up by id: the same case on both sides. -/
theorem lookup_scores {judge : Judge} {R : F64 → F64 → Prop} (cases : List GoldenCase)
    (h : ∀ c ∈ cases, R (judge c.expected (before c.intent)).score
      (judge c.expected (after c.intent)).score)
    {id : String} {base : F64}
    (hbase : (scoresOf (cases.map (suite.resultOf before judge))).lookup id = some base) :
    ∃ cand, (scoresOf (cases.map (suite.resultOf after judge))).lookup id = some cand ∧
      R base cand := by
  induction cases using List.reverseRecOn with
  | nil => cases hbase
  | append_singleton cases c ih =>
    rw [List.map_append, List.map_singleton, scoresOf_concat] at hbase ⊢
    by_cases hid : id = c.id
    · subst hid
      have hscore := (AList.lookup_insert _).symm.trans hbase
      refine ⟨_, AList.lookup_insert _, ?_⟩
      rw [← Option.some.inj hscore]
      exact h c (List.mem_append_right _ (List.mem_singleton_self c))
    · have hold := (AList.lookup_insert_ne hid).symm.trans hbase
      obtain ⟨cand, hcand, hR⟩ := ih (fun d hd => h d (List.mem_append_left _ hd)) hold
      exact ⟨cand, (AList.lookup_insert_ne hid).trans hcand, hR⟩

/-- Two finite scores that are near. -/
def Near (δ : ℚ) (base cand : F64) : Prop :=
  ∃ b c : ℚ, base = .finite b ∧ cand = .finite c ∧ |c - b| ≤ δ

theorem Near.delta {base cand : F64} (h : Near δ base cand) :
    ∃ q : ℚ, cand - base = .finite q ∧ |q| ≤ δ := by
  obtain ⟨b, c, rfl, rfl, hle⟩ := h
  exact ⟨c - b, F64.finite_sub c b, hle⟩

theorem Near.not_counted {base cand : F64} (h : Near δ base cand) (hδ : δ ≤ 1 / 10 ^ 9) :
    ¬ Lower base cand ∧ ¬ Higher base cand := by
  obtain ⟨q, hq, hle⟩ := h.delta
  obtain ⟨hlow, hhigh⟩ := abs_le.mp hle
  rw [Lower, Higher, hq, F64.finite_lt, F64.finite_lt, decide_eq_true_eq, decide_eq_true_eq]
  constructor
  · linarith
  · linarith

/-- Sums of near scores. -/
theorem near_sum {cases : List GoldenCase} {f g : GoldenCase → F64}
    (h : ∀ c ∈ cases, Near δ (f c) (g c)) :
    Near (cases.length * δ) (cases.map f).sum (cases.map g).sum := by
  induction cases with
  | nil => exact ⟨0, 0, rfl, rfl, by simp⟩
  | cons c cases ih =>
    obtain ⟨b, d, hb, hd, hle⟩ := h c List.mem_cons_self
    obtain ⟨b', d', hb', hd', hle'⟩ := ih fun e he => h e (List.mem_cons_of_mem _ he)
    refine ⟨b + b', d + d', ?_, ?_, ?_⟩
    · rw [List.map_cons, List.sum_cons, hb, hb', F64.finite_add]
    · rw [List.map_cons, List.sum_cons, hd, hd', F64.finite_add]
    · rw [List.length_cons, Nat.cast_add, Nat.cast_one]
      rw [abs_le] at hle hle' ⊢
      constructor
      · linarith
      · linarith

/-- The mean scores of near runs are near. -/
theorem near_mean (hδ : 0 ≤ δ) {judge : Judge}
    (h : ∀ c ∈ suite.cases, Near δ (judge c.expected (before c.intent)).score
      (judge c.expected (after c.intent)).score) :
    Near δ (suite.run before judge).meanScore (suite.run after judge).meanScore := by
  rw [run, run, foldl_runCase, foldl_runCase]
  dsimp only
  rw [List.isEmpty_map, List.isEmpty_map, List.length_map, List.length_map]
  rcases hempty : suite.cases.isEmpty with _ | _
  · obtain ⟨b, c, hb, hc, hle⟩ := near_sum h
    have hpos : (0 : ℚ) < suite.cases.length := by
      rw [Nat.cast_pos, List.length_pos_iff, ← List.isEmpty_eq_false_iff]
      exact hempty
    rw [if_neg Bool.false_ne_true, if_neg Bool.false_ne_true, hb, hc,
      F64.finite_div _ hpos.ne', F64.finite_div _ hpos.ne']
    refine ⟨_, _, rfl, rfl, ?_⟩
    rw [← sub_div, abs_div, abs_of_pos hpos, div_le_iff₀ hpos, mul_comm]
    exact hle
  · rw [if_pos rfl, if_pos rfl]
    exact ⟨0, 0, rfl, rfl, by simpa using hδ⟩

/-- The outputs of two providers are near, case by case. -/
def OutputsWithin (isAlphanumeric : Char → Bool) (toLowercase : String → String)
    (suite : GoldenSuite) (before after : String → String) (δ : ℚ) : Prop :=
  ∀ c ∈ suite.cases, Jaccard.distance
    (DeterministicJudge.tokens isAlphanumeric toLowercase (before c.intent))
    (DeterministicJudge.tokens isAlphanumeric toLowercase (after c.intent)) ≤ δ

/-- Then the scores are. -/
theorem OutputsWithin.near (h : OutputsWithin isAlphanumeric toLowercase suite before after δ)
    (j : DeterministicJudge) (c : GoldenCase) (hc : c ∈ suite.cases) :
    Near δ (j.judge isAlphanumeric toLowercase c.expected (before c.intent)).score
      (j.judge isAlphanumeric toLowercase c.expected (after c.intent)).score := by
  refine ⟨_, _, j.score_judge _ _, j.score_judge _ _, ?_⟩
  rw [abs_sub_comm]
  exact (Jaccard.abs_similarity_sub_le _ _ _).trans (h c hc)

/-- **The report moves with the outputs.** When the outputs of two runs are within `δ` of each
other in tokens, so are the deltas and the mean delta of the report; nothing counts as changed if
`δ` is below the report's resolution; and a case that cleared its threshold by `δ` passes
again. -/
theorem report_moves_with_outputs (order : IterationOrder String) (j : DeterministicJudge)
    (hδ : 0 ≤ δ) (h : OutputsWithin isAlphanumeric toLowercase suite before after δ) :
    let judge := j.judge isAlphanumeric toLowercase
    let report := RegressionReport.build order (suite.run before judge) (suite.run after judge)
    (∀ d ∈ report.perCase, ∃ q : ℚ, d.delta = .finite q ∧ |q| ≤ δ) ∧
      (∃ q : ℚ, report.meanDelta = .finite q ∧ |q| ≤ δ) ∧
      (δ ≤ 1 / 10 ^ 9 → report.regressions = 0 ∧ report.improvements = 0) ∧
      ∀ c ∈ suite.cases, ∀ threshold score : ℚ,
        c.minScore.getD suite.threshold = .finite threshold →
        (judge c.expected (before c.intent)).score = .finite score → threshold + δ ≤ score →
          (suite.resultOf after judge c).passed = true := by
  intro judge report
  have hentry : ∀ entry ∈ entriesOf order (scoresOf (suite.run before judge).cases),
      ∃ cand, (scoresOf (suite.run after judge).cases).lookup entry.1 = some cand ∧
        Near δ entry.2 cand := by
    intro entry hmem
    obtain ⟨id, -, hid⟩ := List.mem_filterMap.mp hmem
    obtain ⟨base, hbase, rfl⟩ := Option.map_eq_some_iff.mp hid
    rw [cases_run] at hbase ⊢
    exact lookup_scores suite.cases (h.near j) hbase
  refine ⟨fun d hd => ?_, (near_mean hδ (h.near j)).delta, fun hsmall => ?_, ?_⟩
  · have hjoined : d ∈ (entriesOf order (scoresOf (suite.run before judge).cases)).filterMap
        (Aaf.deltaOf (scoresOf (suite.run after judge).cases)) := by
      have hperm := List.perm_insertionSort (fun a b : RegressionDelta => a.caseId ≤ b.caseId)
        ((entriesOf order (scoresOf (suite.run before judge).cases)).filterMap
          (Aaf.deltaOf (scoresOf (suite.run after judge).cases)))
      rw [← hperm.mem_iff]
      change d ∈ (RegressionReport.build order _ _).perCase at hd
      rw [RegressionReport.build, RegressionReport.foldl_joinCase] at hd
      exact hd
    obtain ⟨entry, hmem, hdelta⟩ := List.mem_filterMap.mp hjoined
    obtain ⟨cand, hcand, hnear⟩ := hentry entry hmem
    rw [Aaf.deltaOf, hcand, Option.map_some, Option.some.injEq] at hdelta
    rw [← hdelta]
    exact hnear.delta
  · have hnone : ∀ entry ∈ entriesOf order (scoresOf (suite.run before judge).cases),
        ¬ Regressed (scoresOf (suite.run after judge).cases) entry ∧
          ¬ Improved (scoresOf (suite.run after judge).cases) entry := by
      intro entry hmem
      obtain ⟨cand, hcand, hnear⟩ := hentry entry hmem
      obtain ⟨hlower, hhigher⟩ := hnear.not_counted hsmall
      refine ⟨fun hregressed => hlower (hregressed cand hcand), ?_⟩
      rintro ⟨cand', hcand', hup⟩
      rw [hcand, Option.mem_def, Option.some.injEq] at hcand'
      rw [← hcand'] at hup
      exact hhigher hup
    change (RegressionReport.build order _ _).regressions = 0 ∧
      (RegressionReport.build order _ _).improvements = 0
    rw [RegressionReport.build, RegressionReport.foldl_joinCase]
    constructor
    · refine congrArg UInt32.ofNat (List.countP_eq_zero.mpr fun entry hmem => ?_)
      rw [decide_eq_true_eq]
      exact (hnone entry hmem).1
    · refine congrArg UInt32.ofNat (List.countP_eq_zero.mpr fun entry hmem => ?_)
      rw [decide_eq_true_eq]
      exact (hnone entry hmem).2
  · intro c hc threshold score hthreshold hscore hmargin
    obtain ⟨b, a, hb, ha, hle⟩ := h.near j c hc
    have hsame := F64.finite.inj (hb.symm.trans hscore)
    rw [resultOf]
    change (c.minScore.getD suite.threshold).le
      (j.judge isAlphanumeric toLowercase c.expected (after c.intent)).score = true
    rw [hthreshold, ha, F64.finite_le, decide_eq_true_eq]
    have hlow := (abs_le.mp hle).1
    linarith

/-- A suite of one case. -/
def shelfSuite : GoldenSuite :=
  ⟨"shelf", .finite (3 / 4), [⟨"g-1", "shelf a", "shelf a is full", none⟩]⟩

theorem report_moves_with_outputs_shelf :
    let judge := DeterministicJudge.default.judge Char.isAlphanum id
    let report := RegressionReport.build .asStored
      (shelfSuite.run (fun _ => "shelf a: full") judge)
      (shelfSuite.run (fun _ => "full, shelf a") judge)
    (∀ d ∈ report.perCase, ∃ q : ℚ, d.delta = .finite q ∧ |q| ≤ 0) ∧
      (∃ q : ℚ, report.meanDelta = .finite q ∧ |q| ≤ 0) ∧
      ((0 : ℚ) ≤ 1 / 10 ^ 9 → report.regressions = 0 ∧ report.improvements = 0) ∧
      ∀ c ∈ shelfSuite.cases, ∀ threshold score : ℚ,
        c.minScore.getD shelfSuite.threshold = .finite threshold →
        (judge c.expected "shelf a: full").score = .finite score → threshold + 0 ≤ score →
          (shelfSuite.resultOf (fun _ => "full, shelf a") judge c).passed = true :=
  report_moves_with_outputs .asStored .default le_rfl (by
    intro c hc
    rw [List.mem_singleton.mp hc]
    decide +kernel)

end GoldenSuite

end Aaf
