import Mathlib.Data.Nat.Dist
import Aaf.Alignment
import Aaf.Contracts

/-!
# Replay divergence

`Replayer::diverges` (`aaf-eval`) compares two traces of one intent, the steps at equal
positions. Its reports name step numbers, so what they say is true of the step numbers only
where positions and numbers go together.

`diverges_likeWithLike_iff`: for traces with ascending step numbers, like is compared with like
exactly when the numbers of one trace begin with those of the other.
-/

namespace Aaf

open Alignment

/-- One divergence between two runs of the same intent. -/
inductive Divergence : Type where
  /-- `side` has no such step -/
  | stepMissing (step : ℕ) (side : String) : Divergence
  | stepTypeChanged (step : ℕ) (baseline candidate : String) : Divergence
  | costDrift (step : ℕ) (baselineCost candidateCost : F64) : Divergence
  | latencyDrift (step : ℕ) (baselineMs candidateMs : ℕ) : Divergence
  | statusChanged (baseline candidate : String) : Divergence
  deriving DecidableEq, Repr

/-- `Debug` of a status. -/
def TraceStatus.debug : TraceStatus → String
  | .running => "Running"
  | .completed => "Completed"
  | .failed => "Failed"
  | .cancelled => "Cancelled"
  | .partialResult => "Partial"

/-- `Replayer`: the drift that is tolerated. -/
structure Replayer where
  costToleranceUsd : F64
  latencyToleranceMs : ℕ
  deriving DecidableEq, Repr

namespace Replayer

/-- `Replayer::default`. -/
def default : Replayer := ⟨.finite (5 / 10000), 50⟩

variable (r : Replayer)

/-- The cost drifted beyond the tolerance. -/
def CostDrifts (b c : TraceStep) : Prop :=
  F64.lt r.costToleranceUsd (F64.abs (b.costUsd - c.costUsd)) = true

/-- The latency drifted beyond the tolerance. -/
def LatencyDrifts (b c : TraceStep) : Prop :=
  r.latencyToleranceMs < Nat.dist b.durationMs c.durationMs

instance (b c : TraceStep) : Decidable (r.CostDrifts b c) := inferInstanceAs (Decidable (_ = true))

instance (b c : TraceStep) : Decidable (r.LatencyDrifts b c) := inferInstanceAs (Decidable (_ < _))

/-- `compare_step`: the divergences it pushes. -/
def compareStep (b c : TraceStep) : List Divergence :=
  (if b.stepType ≠ c.stepType then [.stepTypeChanged b.step b.stepType c.stepType] else []) ++
  (if r.CostDrifts b c then [.costDrift b.step b.costUsd c.costUsd] else []) ++
  (if r.LatencyDrifts b c then [.latencyDrift b.step b.durationMs c.durationMs] else [])

/-- The divergences at one position of the two lists of steps. -/
def compareAt : Option TraceStep → Option TraceStep → List Divergence
  | some b, some c => r.compareStep b c
  | some b, none => [.stepMissing b.step "candidate"]
  | none, some c => [.stepMissing c.step "baseline"]
  | none, none => []

/-- `Replayer::diverges`. -/
def diverges (baseline candidate : ExecutionTrace) : List Divergence :=
  (if baseline.status ≠ candidate.status then
    [.statusChanged baseline.status.debug candidate.status.debug] else []) ++
  (List.range (max baseline.steps.length candidate.steps.length)).flatMap fun i =>
    r.compareAt baseline.steps[i]? candidate.steps[i]?

end Replayer

/-- The step numbers of a trace. -/
def ExecutionTrace.numbers (trace : ExecutionTrace) : List ℕ := trace.steps.map TraceStep.step

/-- The other side. -/
def otherSide (side : String) : String :=
  if side = "baseline" then "candidate" else if side = "candidate" then "baseline" else side

/-- A divergence with the roles of the two traces swapped. -/
def Divergence.swap : Divergence → Divergence
  | .stepMissing step side => .stepMissing step (otherSide side)
  | .stepTypeChanged step baseline candidate => .stepTypeChanged step candidate baseline
  | .costDrift step baselineCost candidateCost => .costDrift step candidateCost baselineCost
  | .latencyDrift step baselineMs candidateMs => .latencyDrift step candidateMs baselineMs
  | .statusChanged baseline candidate => .statusChanged candidate baseline

/-- Two steps with the number `s`, one of each trace. -/
structure BothHave (baseline candidate : ExecutionTrace) (s : ℕ) (b c : TraceStep) : Prop where
  left : b ∈ baseline.steps
  right : c ∈ candidate.steps
  leftStep : b.step = s
  rightStep : c.step = s

namespace Replayer

/-- The reports on two traces compare like with like: a step is missing on a side when only
the other trace has its number, types, costs and latencies are compared for the numbers that
both have, and the roles of the traces are symmetric. -/
structure LikeWithLike (r : Replayer) (baseline candidate : ExecutionTrace) : Prop where
  missing : ∀ s side, .stepMissing s side ∈ r.diverges baseline candidate ↔
    (side = "candidate" ∧ s ∈ baseline.numbers ∧ s ∉ candidate.numbers) ∨
      (side = "baseline" ∧ s ∈ candidate.numbers ∧ s ∉ baseline.numbers)
  stepType : ∀ s x y, .stepTypeChanged s x y ∈ r.diverges baseline candidate ↔
    ∃ b c, BothHave baseline candidate s b c ∧ b.stepType ≠ c.stepType ∧
      x = b.stepType ∧ y = c.stepType
  cost : ∀ s x y, .costDrift s x y ∈ r.diverges baseline candidate ↔
    ∃ b c, BothHave baseline candidate s b c ∧ r.CostDrifts b c ∧ x = b.costUsd ∧ y = c.costUsd
  latency : ∀ s x y, .latencyDrift s x y ∈ r.diverges baseline candidate ↔
    ∃ b c, BothHave baseline candidate s b c ∧ r.LatencyDrifts b c ∧
      x = b.durationMs ∧ y = c.durationMs
  status : ∀ x y, .statusChanged x y ∈ r.diverges baseline candidate ↔
    baseline.status ≠ candidate.status ∧ x = baseline.status.debug ∧ y = candidate.status.debug
  empty : r.diverges baseline candidate = [] ↔
    baseline.status = candidate.status ∧ baseline.numbers = candidate.numbers ∧
      ∀ s b c, BothHave baseline candidate s b c →
        b.stepType = c.stepType ∧ ¬ r.CostDrifts b c ∧ ¬ r.LatencyDrifts b c
  swap : r.diverges candidate baseline = (r.diverges baseline candidate).map Divergence.swap

variable {r : Replayer} {baseline candidate : ExecutionTrace} {d : Divergence}

/-! ## What is reported -/

theorem mem_compareStep {b c : TraceStep} : d ∈ r.compareStep b c ↔
    (b.stepType ≠ c.stepType ∧ d = .stepTypeChanged b.step b.stepType c.stepType) ∨
      (r.CostDrifts b c ∧ d = .costDrift b.step b.costUsd c.costUsd) ∨
      (r.LatencyDrifts b c ∧ d = .latencyDrift b.step b.durationMs c.durationMs) := by
  rw [compareStep, List.mem_append, List.mem_append, or_assoc, List.mem_ite_nil_right,
    List.mem_ite_nil_right, List.mem_ite_nil_right, List.mem_singleton, List.mem_singleton,
    List.mem_singleton]

theorem compareStep_eq_nil_iff {b c : TraceStep} : r.compareStep b c = [] ↔
    b.stepType = c.stepType ∧ ¬ r.CostDrifts b c ∧ ¬ r.LatencyDrifts b c := by
  simp [compareStep]

theorem mem_compareAt {left right : Option TraceStep} : d ∈ r.compareAt left right ↔
    (∃ b c, left = some b ∧ right = some c ∧ d ∈ r.compareStep b c) ∨
      (∃ b, left = some b ∧ right = none ∧ d = .stepMissing b.step "candidate") ∨
      ∃ c, left = none ∧ right = some c ∧ d = .stepMissing c.step "baseline" := by
  cases left <;> cases right <;> simp [compareAt]

/-- **Reports.** What is reported comes from the status, from two steps at one position, or
from a step beyond the end of the other trace. -/
theorem mem_diverges_iff : d ∈ r.diverges baseline candidate ↔
    (baseline.status ≠ candidate.status ∧
      d = .statusChanged baseline.status.debug candidate.status.debug) ∨
    ∃ i : ℕ, d ∈ r.compareAt baseline.steps[i]? candidate.steps[i]? := by
  rw [diverges, List.mem_append, List.mem_ite_nil_right, List.mem_singleton, List.mem_flatMap]
  refine or_congr Iff.rfl (exists_congr fun i => and_iff_right_of_imp fun hd => ?_)
  rw [List.mem_range]
  by_contra hbeyond
  have hlen := not_lt.mp hbeyond
  rw [List.getElem?_eq_none (le_trans (le_max_left _ _) hlen),
    List.getElem?_eq_none (le_trans (le_max_right _ _) hlen)] at hd
  cases hd

theorem statusChanged_mem_iff {x y : String} :
    .statusChanged x y ∈ r.diverges baseline candidate ↔
      baseline.status ≠ candidate.status ∧
        x = baseline.status.debug ∧ y = candidate.status.debug := by
  rw [mem_diverges_iff]
  simp [mem_compareAt, mem_compareStep]

/-- A step is reported missing when the list of the side ends before it. -/
theorem stepMissing_mem_iff {s : ℕ} {side : String} :
    .stepMissing s side ∈ r.diverges baseline candidate ↔
      (side = "candidate" ∧ ∃ i : ℕ, baseline.numbers[i]? = some s ∧
        candidate.numbers[i]? = none) ∨
      (side = "baseline" ∧ ∃ i : ℕ, candidate.numbers[i]? = some s ∧
        baseline.numbers[i]? = none) := by
  simp only [mem_diverges_iff, mem_compareAt, mem_compareStep, reduceCtorEq, and_false, or_false,
    exists_false, false_or, Divergence.stepMissing.injEq, ExecutionTrace.numbers,
    List.getElem?_map, Option.map_eq_some_iff, Option.map_eq_none_iff]
  constructor
  · rintro ⟨i, ⟨b, hb, hc, rfl, rfl⟩ | ⟨c, hb, hc, rfl, rfl⟩⟩
    · exact Or.inl ⟨rfl, i, ⟨b, hb, rfl⟩, hc⟩
    · exact Or.inr ⟨rfl, i, ⟨c, hc, rfl⟩, hb⟩
  · rintro (⟨rfl, i, ⟨b, hb, rfl⟩, hc⟩ | ⟨rfl, i, ⟨c, hc, rfl⟩, hb⟩)
    · exact ⟨i, Or.inl ⟨b, hb, hc, rfl, rfl⟩⟩
    · exact ⟨i, Or.inr ⟨c, hb, hc, rfl, rfl⟩⟩

/-- The divergence was found between two steps. -/
def Compared : Divergence → Prop
  | .stepMissing .. => False
  | .statusChanged .. => False
  | _ => True

theorem compared_of_mem {b c : TraceStep} (h : d ∈ r.compareStep b c) : Compared d := by
  rcases mem_compareStep.mp h with ⟨-, rfl⟩ | ⟨-, rfl⟩ | ⟨-, rfl⟩
  · trivial
  · trivial
  · trivial

theorem compared_mem_iff (hd : Compared d) : d ∈ r.diverges baseline candidate ↔
    ∃ b c, (∃ i : ℕ, baseline.steps[i]? = some b ∧ candidate.steps[i]? = some c) ∧
      d ∈ r.compareStep b c := by
  rw [mem_diverges_iff]
  simp only [mem_compareAt]
  constructor
  · rintro (⟨-, rfl⟩ | ⟨i, ⟨b, c, hb, hc, hmem⟩ | ⟨b, -, -, rfl⟩ | ⟨c, -, -, rfl⟩⟩)
    · exact absurd hd id
    · exact ⟨b, c, ⟨i, hb, hc⟩, hmem⟩
    · exact absurd hd id
    · exact absurd hd id
  · rintro ⟨b, c, ⟨i, hb, hc⟩, hmem⟩
    exact Or.inr ⟨i, Or.inl ⟨b, c, hb, hc, hmem⟩⟩

/-! ## Traces that are aligned -/

/-- The number of a comparison is the number of both steps. -/
theorem exists_bothHave_iff {s : ℕ} {p : TraceStep → TraceStep → Prop} :
    (∃ b c, BothHave baseline candidate b.step b c ∧ s = b.step ∧ p b c) ↔
      ∃ b c, BothHave baseline candidate s b c ∧ p b c := by
  refine exists_congr fun b => exists_congr fun c => ⟨?_, ?_⟩
  · rintro ⟨hboth, rfl, hp⟩
    exact ⟨hboth, hp⟩
  · rintro ⟨hboth, hp⟩
    obtain rfl := hboth.leftStep
    exact ⟨hboth, rfl, hp⟩

section

variable (hsorted : baseline.numbers.Pairwise (· < ·))
  (hsorted' : candidate.numbers.Pairwise (· < ·))
  (haligned : Aligned baseline.numbers candidate.numbers)

include hsorted hsorted' haligned

/-- Two steps are at one position when they have one number. -/
theorem exists_position_iff {b c : TraceStep} :
    (∃ i : ℕ, baseline.steps[i]? = some b ∧ candidate.steps[i]? = some c) ↔
      BothHave baseline candidate b.step b c := by
  have hnumber : ∀ {trace : ExecutionTrace} {i : ℕ} {step : TraceStep},
      trace.steps[i]? = some step → trace.numbers[i]? = some step.step := by
    intro trace i step h
    rw [ExecutionTrace.numbers, List.getElem?_map, h]
    rfl
  constructor
  · rintro ⟨i, hb, hc⟩
    exact ⟨List.mem_of_getElem? hb, List.mem_of_getElem? hc, rfl,
      (haligned.eq_of_position (hnumber hb) (hnumber hc)).symm⟩
  · rintro ⟨hb, hc, -, hstep⟩
    obtain ⟨i, hi⟩ := List.mem_iff_getElem?.mp hb
    obtain ⟨j, hj⟩ := List.mem_iff_getElem?.mp hc
    have hcandidate := hnumber hj
    rw [hstep] at hcandidate
    obtain rfl := haligned.position_eq (hsorted.imp ne_of_lt) (hsorted'.imp ne_of_lt)
      (hnumber hi) hcandidate
    exact ⟨i, hi, hj⟩

theorem missing_iff_of_aligned (s : ℕ) (side : String) :
    .stepMissing s side ∈ r.diverges baseline candidate ↔
      (side = "candidate" ∧ s ∈ baseline.numbers ∧ s ∉ candidate.numbers) ∨
        (side = "baseline" ∧ s ∈ candidate.numbers ∧ s ∉ baseline.numbers) := by
  have hnodup := hsorted.imp ne_of_lt
  have hnodup' := hsorted'.imp ne_of_lt
  rw [stepMissing_mem_iff, haligned.onlyIn_iff hnodup hnodup',
    haligned.symm.onlyIn_iff hnodup' hnodup]

/-- What is found between two steps is found between the steps of one number. -/
theorem compared_iff_of_aligned (hd : Compared d) : d ∈ r.diverges baseline candidate ↔
    ∃ b c, BothHave baseline candidate b.step b c ∧ d ∈ r.compareStep b c := by
  rw [compared_mem_iff hd]
  simp only [exists_position_iff hsorted hsorted' haligned]

/-- Nothing is reported of two traces that have the same status and numbers, and steps that
agree. -/
theorem empty_iff_of_aligned : r.diverges baseline candidate = [] ↔
    baseline.status = candidate.status ∧ baseline.numbers = candidate.numbers ∧
      ∀ s b c, BothHave baseline candidate s b c →
        b.stepType = c.stepType ∧ ¬ r.CostDrifts b c ∧ ¬ r.LatencyDrifts b c := by
  have hmissing := missing_iff_of_aligned (r := r) hsorted hsorted' haligned
  have hcompared := fun d => compared_iff_of_aligned (r := r) (d := d) hsorted hsorted' haligned
  simp only [← compareStep_eq_nil_iff]
  rw [List.eq_nil_iff_forall_not_mem]
  constructor
  · intro hnone
    refine ⟨?_, ?_, fun s b c hboth => ?_⟩
    · by_contra hne
      exact hnone _ (statusChanged_mem_iff.mpr ⟨hne, rfl, rfl⟩)
    · refine eq_of_ascending hsorted hsorted' fun s => ⟨fun hs => ?_, fun hs => ?_⟩
      · by_contra hout
        exact hnone _ ((hmissing s _).mpr (Or.inl ⟨rfl, hs, hout⟩))
      · by_contra hout
        exact hnone _ ((hmissing s _).mpr (Or.inr ⟨rfl, hs, hout⟩))
    · obtain rfl := hboth.leftStep
      exact List.eq_nil_iff_forall_not_mem.mpr fun d hd =>
        hnone d ((hcompared d (compared_of_mem hd)).mpr ⟨b, c, hboth, hd⟩)
  · rintro ⟨hstatus, hnumbers, hagree⟩ d hd
    have hsame : ¬ Compared d := fun hcomp => by
      obtain ⟨b, c, hboth, hmem⟩ := (hcompared d hcomp).mp hd
      rw [hagree _ b c hboth] at hmem
      cases hmem
    cases d with
    | stepMissing s side =>
      rcases (hmissing s side).mp hd with ⟨-, hmem, hout⟩ | ⟨-, hmem, hout⟩
      · exact hout (hnumbers ▸ hmem)
      · exact hout (hnumbers ▸ hmem)
    | statusChanged x y => exact (statusChanged_mem_iff.mp hd).1 hstatus
    | stepTypeChanged s x y => exact hsame trivial
    | costDrift s x y => exact hsame trivial
    | latencyDrift s x y => exact hsame trivial

end

/-! ## Swapping the traces -/

theorem compareStep_swap {b c : TraceStep} (h : b.step = c.step) :
    r.compareStep c b = (r.compareStep b c).map Divergence.swap := by
  have hcost : r.CostDrifts c b ↔ r.CostDrifts b c := by
    rw [CostDrifts, CostDrifts, F64.abs_sub_comm']
  have hlatency : r.LatencyDrifts c b ↔ r.LatencyDrifts b c := by
    rw [LatencyDrifts, LatencyDrifts, Nat.dist_comm]
  simp only [compareStep, hcost, hlatency, ne_comm (a := c.stepType), h, List.map_append,
    apply_ite (List.map Divergence.swap), List.map_cons, List.map_nil, Divergence.swap]

theorem compareAt_swap {left right : Option TraceStep}
    (h : ∀ b ∈ left, ∀ c ∈ right, b.step = c.step) :
    r.compareAt right left = (r.compareAt left right).map Divergence.swap := by
  cases left with
  | none => cases right <;> rfl
  | some b =>
    cases right with
    | none => rfl
    | some c => exact compareStep_swap (h b rfl c rfl)

theorem diverges_swap (haligned : Aligned baseline.numbers candidate.numbers) :
    r.diverges candidate baseline = (r.diverges baseline candidate).map Divergence.swap := by
  rw [diverges, diverges, List.map_append, List.map_flatMap, max_comm]
  congr 1
  · simp only [ne_comm (a := candidate.status), apply_ite (List.map Divergence.swap),
      List.map_cons, List.map_nil, Divergence.swap]
  · refine List.flatMap_congr fun i _ => compareAt_swap fun b hb c hc => ?_
    exact haligned.eq_of_position
      (by rw [ExecutionTrace.numbers, List.getElem?_map, hb, Option.map_some])
      (by rw [ExecutionTrace.numbers, List.getElem?_map, hc, Option.map_some])

/-- **Like with like.** For traces with ascending step numbers, the reports compare like with
like exactly when the numbers of one trace begin with those of the other. -/
theorem diverges_likeWithLike_iff (r : Replayer) (baseline candidate : ExecutionTrace)
    (hsorted : baseline.numbers.Pairwise (· < ·)) (hsorted' : candidate.numbers.Pairwise (· < ·)) :
    r.LikeWithLike baseline candidate ↔ Aligned baseline.numbers candidate.numbers := by
  constructor
  · intro hlike
    refine aligned_of_onlyBeyond hsorted hsorted' (fun s hs hout => ?_) fun s hs hout => ?_
    · have hreported := (hlike.missing s "candidate").mpr (Or.inl ⟨rfl, hs, hout⟩)
      rcases stepMissing_mem_iff.mp hreported with ⟨-, hbeyond⟩ | ⟨hside, -⟩
      · exact hbeyond
      · exact absurd hside (by decide)
    · have hreported := (hlike.missing s "baseline").mpr (Or.inr ⟨rfl, hs, hout⟩)
      rcases stepMissing_mem_iff.mp hreported with ⟨hside, -⟩ | ⟨-, hbeyond⟩
      · exact absurd hside (by decide)
      · exact hbeyond
  · intro haligned
    have hcompared := fun d => compared_iff_of_aligned (r := r) (d := d) hsorted hsorted' haligned
    exact
      { missing := missing_iff_of_aligned hsorted hsorted' haligned
        stepType := fun s x y => by
          rw [hcompared (.stepTypeChanged s x y) trivial, ← exists_bothHave_iff]
          simp [mem_compareStep, and_left_comm]
        cost := fun s x y => by
          rw [hcompared (.costDrift s x y) trivial, ← exists_bothHave_iff]
          simp [mem_compareStep, and_left_comm]
        latency := fun s x y => by
          rw [hcompared (.latencyDrift s x y) trivial, ← exists_bothHave_iff]
          simp [mem_compareStep, and_left_comm]
        status := fun _ _ => statusChanged_mem_iff
        empty := empty_iff_of_aligned hsorted hsorted' haligned
        swap := diverges_swap haligned }

/-- A completed trace of equal steps with these numbers. -/
def numbered (numbers : List ℕ) : ExecutionTrace :=
  let step : ℕ → TraceStep := fun n =>
    ⟨n, ⟨"a"⟩, "node_run", none, 10, 20, .finite (1 / 100), 100,
      ⟨⟨"trace-x"⟩, ⟨"a"⟩, n, ⟨"agent"⟩, [], "", "", .finite 1, [], .success, none⟩⟩
  ((numbers.map step).foldl ExecutionTrace.record (.open ⟨"trace-x"⟩ ⟨"int-x"⟩)).close .completed

/-- A run that stopped early. -/
theorem diverges_likeWithLike_truncated :
    default.LikeWithLike (numbered [1, 2, 3]) (numbered [1, 2]) :=
  (diverges_likeWithLike_iff default (numbered [1, 2, 3]) (numbered [1, 2]) (by decide)
    (by decide)).mpr (by decide)

/-- A run that skips a step: step 2 is the missing one, and step 3 is reported. -/
theorem skippedStep_not_reported :
    default.diverges (numbered [1, 2, 3]) (numbered [1, 3]) = [.stepMissing 3 "candidate"] ∧
      ¬ default.LikeWithLike (numbered [1, 2, 3]) (numbered [1, 3]) := by
  have hreports : default.diverges (numbered [1, 2, 3]) (numbered [1, 3]) =
      [.stepMissing 3 "candidate"] := by decide +kernel
  refine ⟨hreports, fun hlike => ?_⟩
  have hmissing := (hlike.missing 2 "candidate").mpr (Or.inl ⟨rfl, by decide, by decide⟩)
  rw [hreports] at hmissing
  exact absurd hmissing (by decide)

end Replayer

end Aaf
