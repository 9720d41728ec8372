import Aaf.Composition
import Aaf.Tally

/-!
# Cost attribution

`CostAttributor` (`aaf-trace`) charges each step of a trace to the department of the first
rule that matches its model, or to the default department, and adds the costs up by
department. The accumulator is a tally, and `buckets_eq` is its closed form.

`attributeTrace_conserves`: the buckets add up to the total of the trace, each department has
one, with the costs of the steps charged to it, and the order of the steps does not matter.
-/

namespace Aaf

/-- One bucket of attributed cost. -/
structure CostBucket where
  department : String
  costUsd : F64
  reason : String
  deriving DecidableEq, Repr

/-- Cost attribution result for a single trace. -/
structure CostAttribution where
  totalCostUsd : F64
  buckets : List CostBucket
  deriving DecidableEq, Repr

/-- Attribution rule: `*` or an exact model id, and a destination. -/
structure AttributionRule where
  modelGlob : String
  department : String
  reason : String
  deriving DecidableEq, Repr

/-- The rule covers the model. -/
def AttributionRule.Covers (rule : AttributionRule) (model : String) : Prop :=
  rule.modelGlob = "*" ∨ rule.modelGlob = model

instance (rule : AttributionRule) (model : String) : Decidable (rule.Covers model) :=
  inferInstanceAs (Decidable (_ ∨ _))

/-- `CostAttributor`. -/
structure CostAttributor where
  rules : List AttributionRule
  defaultDepartment : String
  deriving DecidableEq, Repr

/-- The model of a step; a step without one has the empty name. -/
def TraceStep.modelName (step : TraceStep) : String := step.model.getD ""

namespace CostAttributor

/-- `CostAttributor::new`. -/
def new (defaultDepartment : String) : CostAttributor := ⟨[], defaultDepartment⟩

/-- `CostAttributor::add_rule`. -/
def addRule (a : CostAttributor) (rule : AttributionRule) : CostAttributor :=
  { a with rules := a.rules ++ [rule] }

/-- The department a step is charged to, and the reason. -/
def charged (a : CostAttributor) (step : TraceStep) : String × String :=
  match a.rules.find? fun rule => decide (rule.Covers step.modelName) with
  | some rule => (rule.department, rule.reason)
  | none => (a.defaultDepartment, "default for model `" ++ step.modelName ++ "`")

/-- The departments of the steps, each with its cost and its first reason. -/
def accumulate (a : CostAttributor) (steps : List TraceStep) : HashMap String (F64 × String) :=
  Tally.tally (fun step => (a.charged step).1) (fun step => (a.charged step).2)
    TraceStep.costUsd steps

/-- `CostAttributor::attribute`; the map is iterated in the order of its keys. -/
def attributeTrace (a : CostAttributor) (trace : ExecutionTrace) : CostAttribution :=
  let acc := a.accumulate trace.steps
  ⟨trace.totalCostUsd, (acc.keys.insertionSort (· ≤ ·)).filterMap fun department =>
    (acc.lookup department).map fun entry => ⟨department, entry.1, entry.2⟩⟩

/-! ## Whom a step is charged to -/

/-- A step is charged to the department: that of the first rule that covers its model, or the
default one when none does. -/
inductive ChargedTo (a : CostAttributor) (step : TraceStep) : String → Prop
  | rule {before after : List AttributionRule} {rule : AttributionRule}
      (hrules : a.rules = before ++ rule :: after) (hcovers : rule.Covers step.modelName)
      (hfirst : ∀ earlier ∈ before, ¬ earlier.Covers step.modelName) :
      ChargedTo a step rule.department
  | fallback (hnone : ∀ rule ∈ a.rules, ¬ rule.Covers step.modelName) :
      ChargedTo a step a.defaultDepartment

variable (a : CostAttributor) {step : TraceStep} {department : String}

/-- Each step is charged to one department, the one the code looks up. -/
theorem chargedTo_iff : a.ChargedTo step department ↔ (a.charged step).1 = department := by
  rw [charged]
  constructor
  · intro h
    cases h with
    | @rule before after rule hrules hcovers hfirst =>
      have hfind : a.rules.find? (fun rule => decide (rule.Covers step.modelName)) = some rule :=
        List.find?_eq_some_iff_append.mpr
          ⟨decide_eq_true hcovers, before, after, hrules, by simpa using hfirst⟩
      rw [hfind]
    | fallback hnone =>
      have hfind : a.rules.find? (fun rule => decide (rule.Covers step.modelName)) = none :=
        List.find?_eq_none.mpr (by simpa using hnone)
      rw [hfind]
  · rintro rfl
    split
    · next rule hfind =>
      obtain ⟨hcovers, before, after, hrules, hfirst⟩ := List.find?_eq_some_iff_append.mp hfind
      exact .rule hrules (of_decide_eq_true hcovers) (by simpa using hfirst)
    · next hfind => exact .fallback (by simpa using List.find?_eq_none.mp hfind)

/-! ## The buckets -/

/-- The costs of the steps charged to a department. -/
def costOf (steps : List TraceStep) (department : String) : F64 :=
  Tally.fiber (fun step => (a.charged step).1) TraceStep.costUsd steps department

/-- The departments the steps are charged to, in their order. -/
def departments (steps : List TraceStep) : List String :=
  btreeSet (steps.map fun step => (a.charged step).1)

variable {steps steps' : List TraceStep}

theorem keys_accumulate :
    (a.accumulate steps).keys.insertionSort (· ≤ ·) = a.departments steps := by
  have hmem : ∀ d, d ∈ (a.accumulate steps).keys ↔
      d ∈ (steps.map fun step => (a.charged step).1).dedup := fun d => by
    rw [List.mem_dedup]
    exact Tally.mem_tally
  have hperm : (a.accumulate steps).keys.Perm (steps.map fun step => (a.charged step).1).dedup :=
    (List.perm_ext_iff_of_nodup (AList.keys_nodup _) (List.nodup_dedup _)).mpr hmem
  rw [departments, btreeSet]
  have hsorted : ((a.accumulate steps).keys.insertionSort (· ≤ ·)).Perm
      ((steps.map fun step => (a.charged step).1).dedup.insertionSort (· ≤ ·)) :=
    (List.perm_insertionSort _ _).trans (hperm.trans (List.perm_insertionSort _ _).symm)
  exact hsorted.eq_of_pairwise' (List.pairwise_insertionSort _ _)
    (List.pairwise_insertionSort _ _)

theorem lookup_accumulate (steps : List TraceStep) (department : String) :
    ((a.accumulate steps).lookup department).map Prod.fst =
      if department ∈ steps.map fun step => (a.charged step).1 then
        some (a.costOf steps department)
      else none :=
  Tally.lookup_tally steps department

/-- **The buckets in closed form.** -/
theorem buckets_eq (trace : ExecutionTrace) :
    (a.attributeTrace trace).buckets.map (fun b => (b.department, b.costUsd)) =
      (a.departments trace.steps).map fun d => (d, a.costOf trace.steps d) := by
  rw [attributeTrace, keys_accumulate, List.map_filterMap, ← List.filterMap_eq_map]
  refine List.filterMap_congr fun d hd => ?_
  have hmem : d ∈ trace.steps.map fun step => (a.charged step).1 := by
    rw [departments, btreeSet] at hd
    exact List.mem_dedup.mp ((List.mem_insertionSort _).mp hd)
  have hlookup := a.lookup_accumulate trace.steps d
  rw [if_pos hmem] at hlookup
  obtain ⟨entry, hentry, hcost⟩ := Option.map_eq_some_iff.mp hlookup
  simp only [hentry, Option.map_some, hcost, Function.comp_apply]

end CostAttributor

/-- The traces that `open`, `record` and `close` build. -/
inductive ExecutionTrace.Recorded : ExecutionTrace → Prop
  | open (traceId : TraceId) (intentId : IntentId) : Recorded (ExecutionTrace.open traceId intentId)
  | record {trace : ExecutionTrace} (step : TraceStep) (h : Recorded trace) :
      Recorded (trace.record step)
  | close {trace : ExecutionTrace} (status : TraceStatus) (h : Recorded trace) :
      Recorded (trace.close status)

/-- The rolling cost is the sum of the costs. -/
theorem ExecutionTrace.Recorded.totalCostUsd_eq {trace : ExecutionTrace} (h : trace.Recorded) :
    trace.totalCostUsd = (trace.steps.map TraceStep.costUsd).sum := by
  induction h with
  | «open» traceId intentId => rfl
  | record step _ ih =>
    rw [ExecutionTrace.record, List.map_append, List.sum_append, List.map_singleton,
      List.sum_singleton, ih]
  | close status _ ih => exact ih

namespace CostAttributor

variable (a : CostAttributor) {step : TraceStep} {department : String}

instance : Decidable (a.ChargedTo step department) :=
  decidable_of_iff _ a.chargedTo_iff.symm

/-- The costs of the steps that are charged to a department. -/
theorem costOf_eq (steps : List TraceStep) (department : String) :
    a.costOf steps department =
      ((steps.filter fun step => decide (a.ChargedTo step department)).map
        TraceStep.costUsd).sum := by
  rw [costOf, Tally.fiber]
  congr 2
  refine List.filter_congr fun step _ => ?_
  rw [decide_eq_decide, chargedTo_iff]

theorem mem_departments {steps : List TraceStep} :
    department ∈ a.departments steps ↔ ∃ step ∈ steps, a.ChargedTo step department := by
  rw [departments, btreeSet, List.mem_insertionSort, List.mem_dedup, List.mem_map]
  simp only [chargedTo_iff]

theorem departments_nodup (steps : List TraceStep) : (a.departments steps).Nodup :=
  (List.perm_insertionSort _ _).nodup_iff.mpr (List.nodup_dedup _)

/-- What the attribution of a trace says about its costs. -/
structure Conserves (trace : ExecutionTrace) : Prop where
  total : (a.attributeTrace trace).totalCostUsd = trace.totalCostUsd
  sum : ((a.attributeTrace trace).buckets.map CostBucket.costUsd).sum = trace.totalCostUsd
  nodup : ((a.attributeTrace trace).buckets.map CostBucket.department).Nodup
  charged : ∀ step ∈ trace.steps, ∃! department, a.ChargedTo step department
  bucket_iff : ∀ department cost,
    (department, cost) ∈ (a.attributeTrace trace).buckets.map (fun b => (b.department, b.costUsd)) ↔
      (∃ step ∈ trace.steps, a.ChargedTo step department) ∧
        cost = ((trace.steps.filter fun step => decide (a.ChargedTo step department)).map
          TraceStep.costUsd).sum

/-- **Money is conserved.** The buckets of a recorded trace add up to its total; each
department has one, with the costs of the steps charged to it; and the buckets do not depend
on the order of the steps. -/
theorem attributeTrace_conserves (a : CostAttributor) :
    (∀ trace : ExecutionTrace, trace.Recorded → a.Conserves trace) ∧
    ∀ trace trace' : ExecutionTrace, trace.steps.Perm trace'.steps →
      (a.attributeTrace trace).buckets.map (fun b => (b.department, b.costUsd)) =
        (a.attributeTrace trace').buckets.map fun b => (b.department, b.costUsd) := by
  refine ⟨fun trace hrecorded => ?_, fun trace trace' hperm => ?_⟩
  · have hbuckets := a.buckets_eq trace
    refine ⟨rfl, ?_, ?_, fun step _ => ?_, fun department cost => ?_⟩
    · have hcosts : (a.attributeTrace trace).buckets.map CostBucket.costUsd =
          (a.departments trace.steps).map (a.costOf trace.steps) := by
        have hsnd := congrArg (List.map Prod.snd) hbuckets
        rwa [List.map_map, List.map_map] at hsnd
      rw [hcosts, hrecorded.totalCostUsd_eq]
      exact Tally.sum_fibers (a.departments_nodup trace.steps) fun step hstep =>
        a.mem_departments.mpr ⟨step, hstep, a.chargedTo_iff.mpr rfl⟩
    · have hdepartments : (a.attributeTrace trace).buckets.map CostBucket.department =
          a.departments trace.steps := by
        have hfst := congrArg (List.map Prod.fst) hbuckets
        rw [List.map_map, List.map_map] at hfst
        exact hfst.trans (List.map_id _)
      rw [hdepartments]
      exact a.departments_nodup trace.steps
    · exact ⟨_, a.chargedTo_iff.mpr rfl, fun d hd => (a.chargedTo_iff.mp hd).symm⟩
    · rw [hbuckets, List.mem_map]
      simp only [Prod.mk.injEq, mem_departments, costOf_eq]
      constructor
      · rintro ⟨d, hd, rfl, rfl⟩
        exact ⟨hd, rfl⟩
      · rintro ⟨hd, rfl⟩
        exact ⟨department, hd, rfl, rfl⟩
  · have hdepartments : a.departments trace.steps = a.departments trace'.steps :=
      btreeSet_perm (hperm.map _)
    rw [buckets_eq, buckets_eq, hdepartments]
    exact List.map_congr_left fun d _ => congrArg (Prod.mk d) (Tally.fiber_perm hperm d)

/-- Marketing pays for one model, infrastructure for the others. -/
def marketingRules : CostAttributor :=
  (CostAttributor.new "infra").addRule ⟨"claude-prod", "marketing", "marketing analyst tasks"⟩

/-- A step that ran a model, at a cost. -/
def costedStep (model : String) (cost : ℚ) : TraceStep :=
  ⟨1, ⟨"a"⟩, "node_run", some model, 0, 0, .finite cost, 1,
    ⟨⟨"trace-x"⟩, ⟨"a"⟩, 1, ⟨"agent"⟩, [], "", "", .finite 1, [], .success, none⟩⟩

/-- Two steps of two departments. -/
def twoDepartments : ExecutionTrace :=
  (((ExecutionTrace.open ⟨"trace-x"⟩ ⟨"int-x"⟩).record (costedStep "claude-prod" (2 / 5))).record
    (costedStep "small-llm" (1 / 10))).close .completed

theorem attributeTrace_conserves_twoDepartments :
    ((marketingRules.attributeTrace twoDepartments).buckets.map CostBucket.costUsd).sum =
      twoDepartments.totalCostUsd :=
  ((attributeTrace_conserves marketingRules).1 twoDepartments
    (.close _ (.record _ (.record _ (.open _ _))))).sum

end CostAttributor

end Aaf
