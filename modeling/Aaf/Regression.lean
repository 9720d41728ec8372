import Mathlib.Data.List.Induction
import Mathlib.Data.List.Sort
import Aaf.Contracts

/-!
# The regression report

`RegressionReport::build` (`aaf-eval`) joins two suite results by case id: it walks the map of
the baseline's scores, in whatever order the map has, and looks each id up among the
candidate's. A case that only the baseline has counts as a regression; nothing walks the
candidate's map, so a case that only the candidate has is not counted (`build_eq`).

`build_visible_iff`: the report accounts for all cases of both sides exactly when the
candidate has no case of its own and neither counter overflows.
-/

namespace Aaf

/-- Verdict returned by a judge. -/
structure JudgeVerdict where
  score : F64
  reasoning : String
  judgeModel : String
  deriving DecidableEq, Repr

/-- Per-case result. -/
structure CaseResult where
  caseId : String
  verdict : JudgeVerdict
  passed : Bool
  deriving DecidableEq, Repr

/-- Aggregate run result. -/
structure SuiteResult where
  suite : String
  total : ℕ
  passed : ℕ
  meanScore : F64
  cases : List CaseResult
  deriving DecidableEq, Repr

/-- The ids of the cases, in input order. -/
abbrev SuiteResult.ids (suite : SuiteResult) : List String := suite.cases.map CaseResult.caseId

/-- Per-case delta between baseline and candidate runs. -/
structure RegressionDelta where
  caseId : String
  baselineScore : F64
  candidateScore : F64
  delta : F64
  deriving DecidableEq, Repr

/-- Aggregate regression report. -/
structure RegressionReport where
  baseline : String
  candidate : String
  meanDelta : F64
  regressions : UInt32
  improvements : UInt32
  perCase : List RegressionDelta
  deriving DecidableEq, Repr

/-- The scores by case id; a later result of a case replaces an earlier one. -/
def scoresOf (cases : List CaseResult) : HashMap String F64 :=
  cases.foldl (fun scores c => scores.insert c.caseId c.verdict.score) ∅

/-- The entries of a map of scores, in the order of the map. -/
def entriesOf (order : IterationOrder String) (scores : HashMap String F64) :
    List (String × F64) :=
  (order.order scores.keys).filterMap fun id => (scores.lookup id).map fun s => (id, s)

/-- The candidate scored strictly lower: by more than `1e-9`. -/
def Lower (base cand : F64) : Prop := F64.lt (cand - base) (.finite (-1 / 10 ^ 9)) = true

/-- The candidate scored strictly higher: by more than `1e-9`. -/
def Higher (base cand : F64) : Prop := F64.lt (.finite (1 / 10 ^ 9)) (cand - base) = true

instance (base cand : F64) : Decidable (Lower base cand) := inferInstanceAs (Decidable (_ = true))

instance (base cand : F64) : Decidable (Higher base cand) := inferInstanceAs (Decidable (_ = true))

namespace RegressionReport

/-- What the loop of `build` carries; the counters wrap around. -/
structure Joined where
  perCase : List RegressionDelta
  regressions : UInt32
  improvements : UInt32

/-- One entry of the baseline. -/
def joinCase (candBy : HashMap String F64) (acc : Joined) (entry : String × F64) : Joined :=
  match candBy.lookup entry.1 with
  | some candScore =>
    let counted :=
      if Lower entry.2 candScore then { acc with regressions := acc.regressions + 1 }
      else if Higher entry.2 candScore then { acc with improvements := acc.improvements + 1 }
      else acc
    { counted with
      perCase := counted.perCase ++ [⟨entry.1, entry.2, candScore, candScore - entry.2⟩] }
  | none => { acc with regressions := acc.regressions + 1 }

/-- `RegressionReport::build`. -/
def build (order : IterationOrder String) (baseline candidate : SuiteResult) : RegressionReport :=
  let baseBy := scoresOf baseline.cases
  let candBy := scoresOf candidate.cases
  let joined := (entriesOf order baseBy).foldl (joinCase candBy) ⟨[], 0, 0⟩
  ⟨baseline.suite, candidate.suite, candidate.meanScore - baseline.meanScore,
    joined.regressions, joined.improvements,
    joined.perCase.insertionSort fun a b => a.caseId ≤ b.caseId⟩

/-- `RegressionReport::has_regression`. -/
def hasRegression (report : RegressionReport) : Bool := decide (0 < report.regressions)

end RegressionReport

/-! ## Scores -/

/-- A score is not both lower and higher. -/
theorem Higher.not_lower {base cand : F64} (h : Higher base cand) : ¬ Lower base cand := by
  intro hlower
  rw [Higher] at h
  rw [Lower] at hlower
  cases hdelta : cand - base with
  | finite q =>
    rw [hdelta, F64.finite_lt, decide_eq_true_eq] at h hlower
    linarith
  | posInf =>
    rw [hdelta] at hlower
    cases hlower
  | negInf =>
    rw [hdelta] at h
    cases h
  | nan =>
    rw [hdelta] at h
    cases h

theorem scoresOf_concat (cases : List CaseResult) (c : CaseResult) :
    scoresOf (cases ++ [c]) = (scoresOf cases).insert c.caseId c.verdict.score := by
  rw [scoresOf, List.foldl_append]
  rfl

theorem mem_scoresOf {cases : List CaseResult} {id : String} :
    id ∈ scoresOf cases ↔ id ∈ cases.map CaseResult.caseId := by
  induction cases using List.reverseRecOn with
  | nil => exact iff_of_false (AList.notMem_empty id) List.not_mem_nil
  | append_singleton cases c ih =>
    rw [scoresOf_concat, AList.mem_insert, ih, List.map_append, List.mem_append,
      List.map_singleton, List.mem_singleton, or_comm]

/-- With distinct ids, a map has the score of each case. -/
theorem lookup_scoresOf_iff {cases : List CaseResult}
    (hnodup : (cases.map CaseResult.caseId).Nodup) {id : String} {score : F64} :
    (scoresOf cases).lookup id = some score ↔
      ∃ c ∈ cases, c.caseId = id ∧ c.verdict.score = score := by
  induction cases using List.reverseRecOn with
  | nil => simp [scoresOf]
  | append_singleton cases c ih =>
    rw [List.map_append, List.nodup_append] at hnodup
    obtain ⟨hcases, -, hdisjoint⟩ := hnodup
    rw [scoresOf_concat]
    by_cases hid : id = c.caseId
    · subst hid
      rw [AList.lookup_insert, Option.some.injEq]
      constructor
      · intro hscore
        exact ⟨c, List.mem_append_right _ (List.mem_singleton_self c), rfl, hscore⟩
      · rintro ⟨c', hc', hsame, hscore⟩
        rcases List.mem_append.mp hc' with hc' | hc'
        · exact absurd hsame
            (hdisjoint _ (List.mem_map_of_mem hc') _
              (List.mem_map_of_mem (List.mem_singleton_self c)))
        · rw [List.mem_singleton.mp hc'] at hscore
          exact hscore
    · rw [AList.lookup_insert_ne hid, ih hcases]
      constructor
      · rintro ⟨c', hc', h⟩
        exact ⟨c', List.mem_append_left _ hc', h⟩
      · rintro ⟨c', hc', hc'id, hscore⟩
        rcases List.mem_append.mp hc' with hc' | hc'
        · exact ⟨c', hc', hc'id, hscore⟩
        · rw [List.mem_singleton.mp hc'] at hc'id
          exact absurd hc'id.symm hid

/-- With distinct ids, any order lists each case once, with its score. -/
theorem entriesOf_perm (order : IterationOrder String) {cases : List CaseResult}
    (hnodup : (cases.map CaseResult.caseId).Nodup) :
    (entriesOf order (scoresOf cases)).Perm (cases.map fun c => (c.caseId, c.verdict.score)) := by
  have hkeys : (scoresOf cases).keys.Perm (cases.map CaseResult.caseId) :=
    (List.perm_ext_iff_of_nodup (AList.keys_nodup _) hnodup).mpr fun id => mem_scoresOf
  have hlookup : ∀ c ∈ cases, ((scoresOf cases).lookup c.caseId).map (fun s => (c.caseId, s)) =
      some (c.caseId, c.verdict.score) := by
    intro c hc
    rw [(lookup_scoresOf_iff hnodup).mpr ⟨c, hc, rfl, rfl⟩]
    rfl
  refine (((order.perm _).trans hkeys).filterMap _).trans (List.Perm.of_eq ?_)
  rw [List.filterMap_map, ← List.filterMap_eq_map]
  exact List.filterMap_congr hlookup

/-! ## The join -/

section

variable (candBy : HashMap String F64)

/-- The delta of a baseline entry that the candidate has too. -/
def deltaOf (entry : String × F64) : Option RegressionDelta :=
  (candBy.lookup entry.1).map fun cand => ⟨entry.1, entry.2, cand, cand - entry.2⟩

/-- A baseline entry that counts as a regression. -/
def Regressed (entry : String × F64) : Prop :=
  ∀ cand ∈ candBy.lookup entry.1, Lower entry.2 cand

/-- A baseline entry that counts as an improvement. -/
def Improved (entry : String × F64) : Prop :=
  ∃ cand ∈ candBy.lookup entry.1, Higher entry.2 cand

instance : DecidablePred (Regressed candBy) := fun entry =>
  inferInstanceAs (Decidable (∀ cand ∈ candBy.lookup entry.1, Lower entry.2 cand))

instance : DecidablePred (Improved candBy) := fun entry =>
  inferInstanceAs (Decidable (∃ cand ∈ candBy.lookup entry.1, Higher entry.2 cand))

end

namespace RegressionReport

variable {candBy : HashMap String F64}

/-- What one entry adds. -/
theorem joinCase_eq (acc : Joined) (entry : String × F64) :
    joinCase candBy acc entry =
      ⟨acc.perCase ++ (deltaOf candBy entry).toList,
        acc.regressions + if Regressed candBy entry then 1 else 0,
        acc.improvements + if Improved candBy entry then 1 else 0⟩ := by
  rw [joinCase, deltaOf]
  cases hlookup : candBy.lookup entry.1 with
  | none =>
    have hregressed : Regressed candBy entry := fun cand hcand => by
      rw [hlookup] at hcand
      cases hcand
    have himproved : ¬ Improved candBy entry := fun ⟨cand, hcand, _⟩ => by
      rw [hlookup] at hcand
      cases hcand
    simp [hregressed, himproved]
  | some cand =>
    have hregressed : Regressed candBy entry ↔ Lower entry.2 cand := by
      simp [Regressed, hlookup]
    have himproved : Improved candBy entry ↔ Higher entry.2 cand := by
      simp [Improved, hlookup]
    simp only [hregressed, himproved]
    by_cases hlower : Lower entry.2 cand
    · have hhigher : ¬ Higher entry.2 cand := fun h => h.not_lower hlower
      simp [hlower, hhigher]
    · by_cases hhigher : Higher entry.2 cand
      · simp [hlower, hhigher]
      · simp [hlower, hhigher]

/-- **The loop in closed form.** -/
theorem foldl_joinCase (entries : List (String × F64)) :
    entries.foldl (joinCase candBy) ⟨[], 0, 0⟩ =
      ⟨entries.filterMap (deltaOf candBy),
        UInt32.ofNat (entries.countP fun e => decide (Regressed candBy e)),
        UInt32.ofNat (entries.countP fun e => decide (Improved candBy e))⟩ := by
  have hcount : ∀ (n : ℕ) (p : Prop) [Decidable p],
      UInt32.ofNat n + (if p then 1 else 0) = UInt32.ofNat (n + if p then 1 else 0) := by
    intro n p hp
    split_ifs
    · rw [UInt32.ofNat_add]
      rfl
    · simp
  induction entries using List.reverseRecOn with
  | nil => rfl
  | append_singleton entries entry ih =>
    rw [List.foldl_append, ih, List.foldl_cons, List.foldl_nil, joinCase_eq, hcount, hcount]
    have hdelta : [entry].filterMap (deltaOf candBy) = (deltaOf candBy entry).toList := by
      cases h : deltaOf candBy entry <;> simp [h]
    rw [List.filterMap_append, hdelta, List.countP_append, List.countP_append,
      List.countP_singleton, List.countP_singleton]
    simp only [decide_eq_true_eq]

/-! ## What the report accounts for -/

/-- The cases of one side whose id the other side does not have. -/
def onlyIn (side other : SuiteResult) : List CaseResult :=
  side.cases.filter fun c => decide (c.caseId ∉ other.ids)

/-- The shared cases with a lower score, as cases of the baseline. -/
def lowered (baseline candidate : SuiteResult) : List CaseResult :=
  baseline.cases.filter fun b => decide (∃ c ∈ candidate.cases, c.caseId = b.caseId ∧
    Lower b.verdict.score c.verdict.score)

/-- The shared cases with a higher score, as cases of the baseline. -/
def raised (baseline candidate : SuiteResult) : List CaseResult :=
  baseline.cases.filter fun b => decide (∃ c ∈ candidate.cases, c.caseId = b.caseId ∧
    Higher b.verdict.score c.verdict.score)

/-- A report that makes missing data visible: the shared cases are listed in order, each with
its delta, and the counters have the changed cases and those of one side. -/
structure Visible (baseline candidate : SuiteResult) (report : RegressionReport) : Prop where
  sorted : (report.perCase.map RegressionDelta.caseId).Pairwise (· < ·)
  perCase : ∀ d, d ∈ report.perCase ↔ ∃ b ∈ baseline.cases, ∃ c ∈ candidate.cases,
    c.caseId = b.caseId ∧ d = ⟨b.caseId, b.verdict.score, c.verdict.score,
      c.verdict.score - b.verdict.score⟩
  regressions : report.regressions.toNat =
    (lowered baseline candidate).length + (onlyIn baseline candidate).length
  improvements : report.improvements.toNat =
    (raised baseline candidate).length + (onlyIn candidate baseline).length

/-- An entry of a case of the baseline, looked up among the candidate's. -/
def entryOf (b : CaseResult) : String × F64 := (b.caseId, b.verdict.score)

variable {baseline candidate : SuiteResult}

section

variable (hc : candidate.ids.Nodup) (b : CaseResult)

include hc

theorem improved_iff : Improved (scoresOf candidate.cases) (entryOf b) ↔
    ∃ c ∈ candidate.cases, c.caseId = b.caseId ∧ Higher b.verdict.score c.verdict.score := by
  rw [Improved, entryOf]
  constructor
  · rintro ⟨cand, hcand, hhigher⟩
    obtain ⟨c, hcmem, hid, rfl⟩ := (lookup_scoresOf_iff hc).mp hcand
    exact ⟨c, hcmem, hid, hhigher⟩
  · rintro ⟨c, hcmem, hid, hhigher⟩
    exact ⟨_, (lookup_scoresOf_iff hc).mpr ⟨c, hcmem, hid, rfl⟩, hhigher⟩

/-- A missing case regresses, a shared one when its score is lower. -/
theorem regressed_iff : Regressed (scoresOf candidate.cases) (entryOf b) ↔
    (∃ c ∈ candidate.cases, c.caseId = b.caseId ∧ Lower b.verdict.score c.verdict.score) ∨
      b.caseId ∉ candidate.ids := by
  rw [Regressed, entryOf]
  constructor
  · intro hall
    by_cases hmem : b.caseId ∈ candidate.ids
    · obtain ⟨c, hcmem, hid⟩ := List.mem_map.mp hmem
      exact Or.inl ⟨c, hcmem, hid, hall _ ((lookup_scoresOf_iff hc).mpr ⟨c, hcmem, hid, rfl⟩)⟩
    · exact Or.inr hmem
  · rintro (⟨c, hcmem, hid, hlower⟩ | hmissing) cand hcand
    · rw [(lookup_scoresOf_iff hc).mpr ⟨c, hcmem, hid, rfl⟩] at hcand
      cases hcand
      exact hlower
    · obtain ⟨c, hcmem, hid, -⟩ := (lookup_scoresOf_iff hc).mp hcand
      exact absurd (List.mem_map.mpr ⟨c, hcmem, hid⟩) hmissing

theorem mem_deltaOf_iff {d : RegressionDelta} :
    d ∈ deltaOf (scoresOf candidate.cases) (entryOf b) ↔ ∃ c ∈ candidate.cases,
      c.caseId = b.caseId ∧ d = ⟨b.caseId, b.verdict.score, c.verdict.score,
        c.verdict.score - b.verdict.score⟩ := by
  rw [deltaOf, entryOf, Option.mem_def, Option.map_eq_some_iff]
  constructor
  · rintro ⟨cand, hcand, rfl⟩
    obtain ⟨c, hcmem, hid, rfl⟩ := (lookup_scoresOf_iff hc).mp hcand
    exact ⟨c, hcmem, hid, rfl⟩
  · rintro ⟨c, hcmem, hid, rfl⟩
    exact ⟨_, (lookup_scoresOf_iff hc).mpr ⟨c, hcmem, hid, rfl⟩, rfl⟩

end

/-- The regressions the loop counts: the lower scores and the missing cases. -/
theorem countP_regressed (hc : candidate.ids.Nodup) :
    (baseline.cases.countP fun b => decide (Regressed (scoresOf candidate.cases) (entryOf b))) =
      (lowered baseline candidate).length + (onlyIn baseline candidate).length := by
  rw [lowered, onlyIn, ← List.countP_eq_length_filter, ← List.countP_eq_length_filter]
  induction baseline.cases with
  | nil => rfl
  | cons b cases ih =>
    have hmissing : (∃ c ∈ candidate.cases, c.caseId = b.caseId ∧
        Lower b.verdict.score c.verdict.score) →
        b.caseId ∈ candidate.ids :=
      fun ⟨c, hcmem, hid, _⟩ => List.mem_map.mpr ⟨c, hcmem, hid⟩
    rw [List.countP_cons, List.countP_cons, List.countP_cons, ih]
    simp only [regressed_iff hc, decide_eq_true_eq]
    by_cases hlower : ∃ c ∈ candidate.cases, c.caseId = b.caseId ∧
        Lower b.verdict.score c.verdict.score
    · have hmem := hmissing hlower
      rw [if_pos (Or.inl hlower), if_pos hlower, if_neg (not_not_intro hmem)]
      omega
    · rw [if_neg hlower]
      simp only [hlower, false_or]
      omega

/-- **The report in closed form**, but for the order of its deltas. -/
theorem build_eq (order : IterationOrder String) (hb : baseline.ids.Nodup)
    (hc : candidate.ids.Nodup) :
    (build order baseline candidate).perCase.Perm
        (baseline.cases.filterMap fun b => deltaOf (scoresOf candidate.cases) (entryOf b)) ∧
      (build order baseline candidate).regressions = UInt32.ofNat
        ((lowered baseline candidate).length + (onlyIn baseline candidate).length) ∧
      (build order baseline candidate).improvements =
        UInt32.ofNat (raised baseline candidate).length := by
  have hentries := entriesOf_perm order hb
  have hregressed := hentries.countP_eq fun e => decide (Regressed (scoresOf candidate.cases) e)
  have himproved := hentries.countP_eq fun e => decide (Improved (scoresOf candidate.cases) e)
  have hraised : (baseline.cases.countP fun b =>
      decide (Improved (scoresOf candidate.cases) (entryOf b))) =
        (raised baseline candidate).length := by
    rw [raised, ← List.countP_eq_length_filter]
    refine List.countP_congr fun b _ => ?_
    rw [decide_eq_true_eq, decide_eq_true_eq]
    exact improved_iff hc b
  rw [List.countP_map] at hregressed himproved
  rw [build, foldl_joinCase]
  refine ⟨?_, ?_, ?_⟩
  · refine (List.perm_insertionSort _ _).trans ((hentries.filterMap _).trans (List.Perm.of_eq ?_))
    rw [List.filterMap_map]
    rfl
  · exact congrArg UInt32.ofNat (hregressed.trans (countP_regressed hc))
  · exact congrArg UInt32.ofNat (himproved.trans hraised)

/-- No id is listed that the baseline does not have, and none twice. -/
theorem map_caseId_sublist (hc : candidate.ids.Nodup) :
    ((baseline.cases.filterMap fun b => deltaOf (scoresOf candidate.cases) (entryOf b)).map
        RegressionDelta.caseId).Sublist baseline.ids := by
  rw [SuiteResult.ids]
  induction baseline.cases with
  | nil => exact List.Sublist.refl _
  | cons b cases ih =>
    rw [List.filterMap_cons, List.map_cons]
    cases hdelta : deltaOf (scoresOf candidate.cases) (entryOf b) with
    | none => exact ih.cons _
    | some d =>
      obtain ⟨c, -, -, rfl⟩ := (mem_deltaOf_iff hc b).mp hdelta
      exact ih.cons_cons _

/-- The shared cases are listed in the order of their ids. -/
theorem perCase_sorted (order : IterationOrder String) (hb : baseline.ids.Nodup)
    (hc : candidate.ids.Nodup) :
    ((build order baseline candidate).perCase.map RegressionDelta.caseId).Pairwise (· < ·) := by
  have hnodup : ((build order baseline candidate).perCase.map RegressionDelta.caseId).Nodup :=
    (((build_eq order hb hc).1.map _).nodup_iff).mpr ((map_caseId_sublist hc).nodup hb)
  have hsorted : (build order baseline candidate).perCase.Pairwise
      fun a b => a.caseId ≤ b.caseId := List.pairwise_insertionSort _ _
  rw [List.pairwise_map]
  rw [List.Nodup, List.pairwise_map] at hnodup
  exact hsorted.imp₂ (fun a b hle hne => lt_of_le_of_ne hle hne) hnodup

/-- The gate a suite is compared for: below `2 ^ 32` regressions, `has_regression` says that a
shared case has a lower score or a case is gone. -/
theorem hasRegression_iff (order : IterationOrder String) (hb : baseline.ids.Nodup)
    (hc : candidate.ids.Nodup)
    (hfew : (lowered baseline candidate).length + (onlyIn baseline candidate).length <
      UInt32.size) :
    (build order baseline candidate).hasRegression = true ↔
      lowered baseline candidate ≠ [] ∨ onlyIn baseline candidate ≠ [] := by
  rw [hasRegression, decide_eq_true_eq, (build_eq order hb hc).2.1, UInt32.lt_iff_toNat_lt,
    UInt32.toNat_ofNat_of_lt' hfew, ← List.length_pos_iff, ← List.length_pos_iff]
  exact Nat.add_pos_iff_pos_or_pos

/-- **Missing data.** For suites with distinct ids, in any order of the maps, the report makes
missing data visible exactly when the candidate has no case that the baseline lacks and both
counts stay below `2 ^ 32`. -/
theorem build_visible_iff (order : IterationOrder String) (baseline candidate : SuiteResult)
    (hb : baseline.ids.Nodup) (hc : candidate.ids.Nodup) :
    Visible baseline candidate (build order baseline candidate) ↔
      onlyIn candidate baseline = [] ∧ (raised baseline candidate).length < UInt32.size ∧
        (lowered baseline candidate).length + (onlyIn baseline candidate).length <
          UInt32.size := by
  obtain ⟨hperm, hregressions, himprovements⟩ := build_eq order hb hc
  have hsize : UInt32.size = 2 ^ 32 := rfl
  constructor
  · intro hvisible
    have hr := hvisible.regressions
    have hi := hvisible.improvements
    rw [hregressions, UInt32.toNat_ofNat'] at hr
    rw [himprovements, UInt32.toNat_ofNat'] at hi
    refine ⟨List.length_eq_zero_iff.mp ?_, ?_, ?_⟩
    · omega
    · omega
    · omega
  · rintro ⟨honly, hraised, hlowered⟩
    refine ⟨perCase_sorted order hb hc, fun d => ?_, ?_, ?_⟩
    · rw [hperm.mem_iff, List.mem_filterMap]
      exact exists_congr fun b => and_congr_right fun _ => mem_deltaOf_iff hc b
    · rw [hregressions, UInt32.toNat_ofNat_of_lt' hlowered]
    · rw [himprovements, UInt32.toNat_ofNat_of_lt' hraised, honly]
      rfl

/-- A suite result that passes the cases that score one half. -/
def scored (suite : String) (scores : List (String × ℚ)) : SuiteResult :=
  let cases := scores.map fun s => ⟨s.1, ⟨.finite s.2, "", "mock"⟩, decide (1 / 2 ≤ s.2)⟩
  ⟨suite, cases.length, cases.countP CaseResult.passed,
    .finite ((scores.map Prod.snd).sum / cases.length), cases⟩

/-- A case that only the baseline has is visible. -/
theorem build_visible_droppedCase :
    Visible (scored "base" [("a", 1), ("b", 1 / 2)]) (scored "cand" [("a", 1)])
      (build IterationOrder.asStored (scored "base" [("a", 1), ("b", 1 / 2)])
        (scored "cand" [("a", 1)])) :=
  (build_visible_iff IterationOrder.asStored (scored "base" [("a", 1), ("b", 1 / 2)])
    (scored "cand" [("a", 1)]) (by decide) (by decide)).mpr
      ⟨by decide +kernel, by decide +kernel, by decide +kernel⟩

/-- A case that only the candidate has is not. -/
theorem newCase_not_visible :
    ¬ Visible (scored "base" [("a", 1)]) (scored "cand" [("a", 1), ("b", 1)])
      (build IterationOrder.asStored (scored "base" [("a", 1)])
        (scored "cand" [("a", 1), ("b", 1)])) :=
  fun hvisible => absurd hvisible.improvements (by decide +kernel)

end RegressionReport

end Aaf
