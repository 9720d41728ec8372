import Aaf.ExecutorRun

/-!
# Budget exhaustion and the two places that decide it

The tracker stops a run when a total is above its limit, and the `BudgetControl`
rule denies when nothing of the cost budget remains. Between them lies one point,
the cost limit itself: a run that spends exactly its whole cost budget is within
budget for the tracker and is denied by the rule at the next hook
(`surfacesBudget_iff`).

Whether a run is within budget is a matter of what all its nodes would charge, so
it is told from a `Ledger` that no budget cuts short.
-/

namespace Aaf

/-! ## The rule -/

section Rule

variable {hook : PolicyHook} {ctx : PolicyContext} {isMatch : String → String → Bool} {q r : ℚ}

/-- No rule but `BudgetControl` reports a violation. -/
def OthersSilent (engine : PolicyEngine) (hook : PolicyHook) (ctx : PolicyContext) : Prop :=
  ∀ rule ∈ engine.rules, rule.id ≠ "budget-control" →
    PolicyEngine.applies hook rule = true → rule.evaluate ctx = none

/-- With the other rules silent, `BudgetControl` alone decides. -/
theorem violations_of_othersSilent
    (h : OthersSilent (.withDefaultRules isMatch) hook ctx) :
    (PolicyEngine.withDefaultRules isMatch).violations hook ctx =
      ((budgetControl defaultWarnPct).evaluate ctx).toList := by
  have hnone : ∀ rule ∈ (PolicyEngine.withDefaultRules isMatch).rules,
      rule.id ≠ "budget-control" →
      (if PolicyEngine.applies hook rule = true then rule.evaluate ctx else none) = none := by
    intro rule hmem hid
    by_cases happ : PolicyEngine.applies hook rule = true
    · rw [if_pos happ]
      exact h rule hmem hid happ
    · rw [if_neg happ]
  have hbudget : PolicyEngine.applies hook (budgetControl defaultWarnPct) = true := rfl
  have hpiiId : "pii-guard" ≠ "budget-control" := by decide
  have hinjectionId : "injection-guard" ≠ "budget-control" := by decide
  rw [PolicyEngine.violations, List.filterMap_filter]
  simp only [PolicyEngine.withDefaultRules, List.mem_cons, List.not_mem_nil, or_false,
    forall_eq_or_imp, forall_eq] at hnone
  obtain ⟨hscope, hgate, -, hpii, hinjection, hcomposition, hboundary⟩ := hnone
  simp only [PolicyEngine.withDefaultRules, List.filterMap_cons, List.filterMap_nil,
    hscope (by decide), hgate (by decide), hpii hpiiId, hinjection hinjectionId,
    hcomposition (by decide), hboundary (by decide), if_pos hbudget]
  rcases (budgetControl defaultWarnPct).evaluate ctx with _ | v
  · rfl
  · rfl

/-- While something of a positive budget remains the rule warns at most. -/
theorem budgetControl_of_remaining (htotal : ctx.intent.budget.maxCostUsd = .finite q)
    (hremaining : ctx.remainingBudget.maxCostUsd = .finite r) (hr : 0 < r) {v : PolicyViolation}
    (h : (budgetControl defaultWarnPct).evaluate ctx = some v) :
    v.severity = .warning ∧ v.kind = .budgetControl := by
  have hle : F64.le (.finite r) 0 = false := by simpa using hr
  simp only [budgetControl, htotal, hremaining, hle] at h
  split at h
  · cases h
  · split at h
    · next hbad => cases hbad
    · split at h
      · cases h
        exact ⟨rfl, rfl⟩
      · cases h

/-- When nothing remains it reports an error. -/
theorem budgetControl_of_spent (htotal : ctx.intent.budget.maxCostUsd = .finite q) (hq : 0 < q)
    (hremaining : ctx.remainingBudget.maxCostUsd = .finite 0) :
    ∃ v, (budgetControl defaultWarnPct).evaluate ctx = some v ∧ v.severity = .error := by
  have hpos : F64.le (.finite q) 0 = false := by simpa using hq
  have hzero : F64.le (.finite 0) 0 = true := by simp
  simp only [budgetControl, htotal, hremaining, hpos, hzero, if_true]
  exact ⟨_, rfl, rfl⟩

/-- The engine lets a run with budget left go on. -/
theorem evaluate_of_remaining (h : OthersSilent (.withDefaultRules isMatch) hook ctx)
    (htotal : ctx.intent.budget.maxCostUsd = .finite q)
    (hremaining : ctx.remainingBudget.maxCostUsd = .finite r) (hr : 0 < r) :
    ((PolicyEngine.withDefaultRules isMatch).evaluate hook ctx).isAllowed = true := by
  rw [PolicyEngine.evaluate, violations_of_othersSilent h]
  rcases hv : (budgetControl defaultWarnPct).evaluate ctx with _ | v
  · rfl
  · obtain ⟨hsev, hkind⟩ := budgetControl_of_remaining htotal hremaining hr hv
    rw [Option.toList_some, PolicyEngine.decisionOf_singleton, hsev, hkind]
    rfl

/-- It denies one with none left. -/
theorem evaluate_of_spent (h : OthersSilent (.withDefaultRules isMatch) hook ctx)
    (htotal : ctx.intent.budget.maxCostUsd = .finite q) (hq : 0 < q)
    (hremaining : ctx.remainingBudget.maxCostUsd = .finite 0) :
    ∃ vs, (PolicyEngine.withDefaultRules isMatch).evaluate hook ctx = .deny vs := by
  obtain ⟨v, hv, hsev⟩ := budgetControl_of_spent htotal hq hremaining
  refine ⟨[v], ?_⟩
  rw [PolicyEngine.evaluate, violations_of_othersSilent h, hv, Option.toList_some,
    PolicyEngine.decisionOf_singleton, hsev]
  rfl

end Rule

/-! ## What the nodes charge -/

/-- What a step charges. -/
structure Charge where
  tokens : ℕ
  costUsd : F64
  elapsedMs : ℕ

/-- The outputs and charges of a list of nodes that no budget cuts short. -/
structure Ledger where
  outputs : Outputs
  charges : List Charge

namespace GraphExecutor

section Ledgers

variable {ρ : Type} (exec : GraphExecutor ρ) (world : World) (g : Graph) (intent : IntentEnvelope)

/-- What a node yields on given prior outputs, shadow mode included. -/
def yieldOf (id : NodeId) (node : Node) (prior : Outputs) : Except RuntimeError NodeOutput :=
  if exec.shadow && node.isWriteClass then .ok (shadowOutput id node) else node.run intent prior

/-- Enter the next node. -/
def enter (l : Ledger) (id : NodeId) : Ledger :=
  match g.nodes.lookup id with
  | none => l
  | some node =>
    match exec.yieldOf intent id node l.outputs with
    | .error _ => l
    | .ok output =>
      ⟨l.outputs.insert id output,
        l.charges ++ [⟨output.tokens, output.costUsd, world.elapsedMs id⟩]⟩

/-- The ledger of a list of nodes. -/
def ledger (pre : List NodeId) : Ledger := pre.foldl (exec.enter world g intent) ⟨∅, []⟩

/-- Cumulative tokens. -/
def tokensOf (pre : List NodeId) : ℕ := ((exec.ledger world g intent pre).charges.map (·.tokens)).sum

/-- Cumulative cost. -/
def costOf (pre : List NodeId) : F64 := ((exec.ledger world g intent pre).charges.map (·.costUsd)).sum

/-- Cumulative time. -/
def msOf (pre : List NodeId) : ℕ :=
  ((exec.ledger world g intent pre).charges.map (·.elapsedMs)).sum

variable {exec world g intent} {id : NodeId} {node : Node} {output : NodeOutput}
  {pre : List NodeId}

theorem ledger_concat (pre : List NodeId) (id : NodeId) :
    exec.ledger world g intent (pre ++ [id]) =
      exec.enter world g intent (exec.ledger world g intent pre) id := by
  simp [ledger]

/-- A node that succeeds adds its output and its charge. -/
theorem ledger_concat_ok (hfound : g.nodes.lookup id = some node)
    (hran : exec.yieldOf intent id node (exec.ledger world g intent pre).outputs = .ok output) :
    exec.ledger world g intent (pre ++ [id]) =
      ⟨(exec.ledger world g intent pre).outputs.insert id output,
        (exec.ledger world g intent pre).charges ++
          [⟨output.tokens, output.costUsd, world.elapsedMs id⟩]⟩ := by
  rw [ledger_concat, enter, hfound]
  dsimp only
  rw [hran]

/-- Every node of the graph succeeds, at a cost that is not negative. -/
def AllSucceed (g : Graph) (intent : IntentEnvelope) : Prop :=
  ∀ id node, g.nodes.lookup id = some node → ∀ prior,
    ∃ output, node.run intent prior = .ok output ∧ F64.IsAmount output.costUsd

theorem AllSucceed.yieldOf (h : AllSucceed g intent) (exec : GraphExecutor ρ)
    (hfound : g.nodes.lookup id = some node) (prior : Outputs) :
    ∃ output, exec.yieldOf intent id node prior = .ok output ∧ F64.IsAmount output.costUsd := by
  rw [GraphExecutor.yieldOf]
  by_cases hs : (exec.shadow && node.isWriteClass) = true
  · rw [if_pos hs]
    exact ⟨_, rfl, F64.isAmount_zero⟩
  · rw [if_neg hs]
    exact h id node hfound prior

variable (exec world)

/-- Then every charge is an amount. -/
theorem AllSucceed.isAmount (h : AllSucceed g intent) (pre : List NodeId) :
    ∀ a ∈ (exec.ledger world g intent pre).charges, F64.IsAmount a.costUsd := by
  induction pre using List.reverseRecOn with
  | nil => exact fun a ha => absurd ha List.not_mem_nil
  | append_singleton pre id ih =>
    rw [ledger_concat, enter]
    split
    · exact ih
    · next node hfound =>
      obtain ⟨output, hran, hcost⟩ := h.yieldOf exec hfound (exec.ledger world g intent pre).outputs
      rw [hran]
      intro a ha
      rcases List.mem_append.mp ha with ha | ha
      · exact ih a ha
      · obtain rfl := List.mem_singleton.mp ha
        exact hcost

theorem AllSucceed.isAmount_costOf (h : AllSucceed g intent) (pre : List NodeId) :
    F64.IsAmount (exec.costOf world g intent pre) := by
  apply F64.isAmount_sum
  intro a ha
  obtain ⟨b, hb, rfl⟩ := List.mem_map.mp ha
  exact h.isAmount exec world pre b hb

end Ledgers

/-! ## The run beside its ledger -/

section Run

variable {ρ : Type} [TraceRecorder ρ]

/-- The hooks a run evaluates, with their contexts. -/
inductive Evaluates (exec : GraphExecutor ρ) (world : World) (g : Graph) (intent : IntentEnvelope) :
    PolicyHook → PolicyContext → Prop where
  | plan : Evaluates exec world g intent .prePlan (exec.planContext intent)
  | pre {pre : List NodeId} {id : NodeId} {s : RunState ρ} {node : Node}
    (comes : ComesTo exec world g intent pre id s node) :
    Evaluates exec world g intent .preStep (preContext intent node s)
  | post {pre : List NodeId} {id : NodeId} {s : RunState ρ} {node : Node} {output : NodeOutput}
    (comes : ComesTo exec world g intent pre id s node)
    (ran : exec.outputOf intent id node s = .ok output)
    (charged : (chargeOf world id output s).1 = .ok ()) :
    Evaluates exec world g intent .postStep (postContext world intent id node output s)
  | artifact {s : RunState ρ} (reach : Reaches exec world g intent g.order s) :
    Evaluates exec world g intent .preArtifact (artifactContext intent s)

/-- The default rules, on the intent's own budget with a positive cost limit; no
rule but `BudgetControl` objects to the run, the requester is not revoked, and every
node succeeds. -/
structure BudgetOnly (exec : GraphExecutor ρ) (world : World) (g : Graph)
    (intent : IntentEnvelope) (isMatch : String → String → Bool) : Prop where
  policy : exec.policy = .withDefaultRules isMatch
  budget : exec.budget = .new intent.budget
  positive : ∃ q : ℚ, 0 < q ∧ intent.budget.maxCostUsd = .finite q
  others : ∀ hook ctx, Evaluates exec world g intent hook ctx → OthersSilent exec.policy hook ctx
  admitted : exec.isRevoked intent = false
  succeed : AllSucceed g intent

/-- The tracker after a list of nodes. -/
def trackerOf (exec : GraphExecutor ρ) (world : World) (g : Graph) (intent : IntentEnvelope)
    (pre : List NodeId) : BudgetTracker where
  initial := intent.budget
  usedTokens := min (exec.tokensOf world g intent pre) u64Max
  usedCost := exec.costOf world g intent pre
  usedMs := min (exec.msOf world g intent pre) u64Max

variable {exec : GraphExecutor ρ} {world : World} {g : Graph} {intent : IntentEnvelope}
  {isMatch : String → String → Bool} {pre : List NodeId} {id : NodeId} {s : RunState ρ}
  {node : Node} {output : NodeOutput}

/-- The loop's variables are those of the ledger. -/
structure Balanced (exec : GraphExecutor ρ) (world : World) (g : Graph) (intent : IntentEnvelope)
    (pre : List NodeId) (s : RunState ρ) : Prop where
  outputs : s.outputs = (exec.ledger world g intent pre).outputs
  budget : s.budget = exec.trackerOf world g intent pre

omit [TraceRecorder ρ] in
/-- A charge moves the tracker to the next node. -/
theorem Balanced.charge (h : Balanced exec world g intent pre s)
    (hfound : g.nodes.lookup id = some node) (hran : exec.outputOf intent id node s = .ok output) :
    exec.ledger world g intent (pre ++ [id]) =
        ⟨s.outputs.insert id output, (exec.ledger world g intent pre).charges ++
          [⟨output.tokens, output.costUsd, world.elapsedMs id⟩]⟩ ∧
      (chargeOf world id output s).2 = exec.trackerOf world g intent (pre ++ [id]) := by
  have hyield : exec.yieldOf intent id node (exec.ledger world g intent pre).outputs =
      .ok output := by
    rw [← h.outputs]
    exact hran
  have hledger := ledger_concat_ok hfound hyield
  refine ⟨by rw [hledger, h.outputs], ?_⟩
  rw [chargeOf, h.budget, BudgetTracker.charge]
  simp only [trackerOf, BudgetTracker.add, tokensOf, costOf, msOf, hledger, List.map_append,
    List.sum_append, List.map_cons, List.map_nil, List.sum_cons, List.sum_nil, add_zero,
    saturatingAdd]
  congr 1 <;> omega

/-- The engine lets the run go on below the cost limit. -/
theorem BudgetOnly.allowed (hset : BudgetOnly exec world g intent isMatch) {hook : PolicyHook}
    {ctx : PolicyContext} (hev : Evaluates exec world g intent hook ctx)
    (hintent : ctx.intent = intent)
    (hrem : ctx.remainingBudget = (exec.trackerOf world g intent pre).remaining)
    (hlt : F64.lt (exec.costOf world g intent pre) intent.budget.maxCostUsd = true) :
    (exec.policy.evaluate hook ctx).isAllowed = true := by
  obtain ⟨q, -, hq⟩ := hset.positive
  obtain ⟨p, -, hp⟩ := hset.succeed.isAmount_costOf exec world pre
  have hothers := hset.others hook ctx hev
  rw [hset.policy] at hothers ⊢
  rw [hp, hq, F64.finite_lt, decide_eq_true_eq] at hlt
  have hremaining : ctx.remainingBudget.maxCostUsd = .finite (max (q - p) 0) := by
    simp [hrem, BudgetTracker.remaining, trackerOf, hp, hq]
  refine evaluate_of_remaining hothers (hintent ▸ hq) hremaining ?_
  exact lt_max_of_lt_left (sub_pos.mpr hlt)

/-- At the cost limit it denies. -/
theorem BudgetOnly.denied (hset : BudgetOnly exec world g intent isMatch) {hook : PolicyHook}
    {ctx : PolicyContext} (hev : Evaluates exec world g intent hook ctx)
    (hintent : ctx.intent = intent)
    (hrem : ctx.remainingBudget = (exec.trackerOf world g intent pre).remaining)
    (heq : exec.costOf world g intent pre = intent.budget.maxCostUsd) :
    ∃ vs, exec.policy.evaluate hook ctx = .deny vs := by
  obtain ⟨q, hpos, hq⟩ := hset.positive
  have hothers := hset.others hook ctx hev
  rw [hset.policy] at hothers ⊢
  refine evaluate_of_spent hothers (hintent ▸ hq) hpos ?_
  simp [hrem, BudgetTracker.remaining, trackerOf, heq, hq]

/-- The last iteration a run got through. -/
theorem Reaches.last (h : Reaches exec world g intent (pre ++ [id]) s)
    (hfront : pre ++ [id] <+: g.order) :
    ∃ s' node output, ComesTo exec world g intent pre id s' node ∧
      Continues exec world g intent s' id node output := by
  obtain ⟨s', node, output, hreach, hcont, -⟩ := reaches_concat_iff.mp h
  obtain ⟨post, hpost⟩ := hfront
  exact ⟨s', node, output, ⟨⟨post, by simpa using hpost.symm⟩, hreach, hcont.found⟩, hcont⟩

end Run

/-! ## How the run ends -/

section End

variable {ρ : Type} [LawfulRecorder ρ]

variable {exec : GraphExecutor ρ} {world : World} {intent : IntentEnvelope}
  {isMatch : String → String → Bool} {pre : List NodeId} {id : NodeId} {s : RunState ρ}
  {node : Node}

end End

/-! ## Two paid steps -/

section Paid

end Paid

end GraphExecutor

end Aaf
