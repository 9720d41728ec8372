import Aaf.Budget
import Aaf.Machine
import Mathlib.Algebra.Order.BigOperators.Group.List

/-!
# A budget over a whole history

`BudgetTracker` is a machine that takes charges: it adds each to its totals, also when it
refuses it. Two of its three counters saturate.

`charge_history`: the answer to every charge, and what remains after it, depend on the sums
of all charges so far only, and so a budget that is exhausted once stays so.
-/

namespace Aaf

/-- What a charge is made of; costs are not negative. -/
structure BudgetCharge where
  tokens : ℕ
  cost : ℚ
  elapsedMs : ℕ
  cost_nonneg : 0 ≤ cost

namespace BudgetTracker

/-- A charge as a call of the machine. -/
def take (t : BudgetTracker) (c : BudgetCharge) : Except BudgetTrackerError Unit × BudgetTracker :=
  t.charge c.tokens (.finite c.cost) c.elapsedMs

/-! ## Sums -/

/-- The tokens charged so far, as a `u64` that saturates. -/
def tokensOf (charges : List BudgetCharge) : ℕ :=
  min (charges.map BudgetCharge.tokens).sum u64Max

/-- The cost charged so far. -/
def costOf (charges : List BudgetCharge) : ℚ := (charges.map BudgetCharge.cost).sum

/-- The milliseconds charged so far, as a `u64` that saturates. -/
def msOf (charges : List BudgetCharge) : ℕ :=
  min (charges.map BudgetCharge.elapsedMs).sum u64Max

/-- A counter that saturates at every step ends where one that saturates at the end does. -/
theorem saturatingAdd_min (n m : ℕ) : saturatingAdd (min n u64Max) m = min (n + m) u64Max := by
  rw [saturatingAdd]
  omega

/-- The totals of a tracker are the sums of its charges. -/
theorem run_take (budget : BudgetContract) (charges : List BudgetCharge) :
    Machine.run take (.new budget) charges =
      ⟨budget, tokensOf charges, .finite (costOf charges), msOf charges⟩ := by
  induction charges using List.reverseRecOn with
  | nil => rfl
  | append_singleton charges c ih =>
    rw [Machine.run_concat, ih, take, charge, add, tokensOf, tokensOf, costOf, costOf, msOf, msOf]
    simp only [List.map_append, List.map_singleton, List.sum_append, List.sum_singleton,
      saturatingAdd_min, F64.finite_add]

theorem costOf_nonneg (charges : List BudgetCharge) : 0 ≤ costOf charges := by
  refine List.sum_nonneg fun q hq => ?_
  obtain ⟨c, -, rfl⟩ := List.mem_map.mp hq
  exact c.cost_nonneg

/-! ## Limits -/

/-- The tokens are at most their limit. -/
def TokensFit (budget : BudgetContract) (charges : List BudgetCharge) : Prop :=
  tokensOf charges ≤ budget.maxTokens

/-- The cost is at most its limit. -/
def CostFits (budget : BudgetContract) (charges : List BudgetCharge) : Prop :=
  F64.le (.finite (costOf charges)) budget.maxCostUsd = true

/-- The time is at most its limit. -/
def TimeFits (budget : BudgetContract) (charges : List BudgetCharge) : Prop :=
  msOf charges ≤ budget.maxLatencyMs

/-- Every dimension is within its limit. -/
structure Fits (budget : BudgetContract) (charges : List BudgetCharge) : Prop where
  tokens : TokensFit budget charges
  cost : CostFits budget charges
  time : TimeFits budget charges

/-- The answer to the last of the charges. -/
structure Verdict (budget : BudgetContract) (charges : List BudgetCharge)
    (r : Except BudgetTrackerError Unit) : Prop where
  ok_iff : r = .ok () ↔ Fits budget charges
  tokens_iff : r = .error (.tokens budget.maxTokens) ↔ ¬ TokensFit budget charges
  cost_iff : r = .error (.cost budget.maxCostUsd) ↔
    TokensFit budget charges ∧ ¬ CostFits budget charges
  time_iff : r = .error (.time budget.maxLatencyMs) ↔
    TokensFit budget charges ∧ CostFits budget charges ∧ ¬ TimeFits budget charges

/-- What remains after the charges: the limits less the sums, floored at zero. A limit is a
`u64`, so the saturation of a sum does not show. -/
structure Remains (budget : BudgetContract) (charges : List BudgetCharge)
    (r : BudgetContract) : Prop where
  tokens_eq : r.maxTokens = budget.maxTokens - tokensOf charges
  cost_eq : r.maxCostUsd = F64.max (budget.maxCostUsd - .finite (costOf charges)) 0
  ms_eq : r.maxLatencyMs = budget.maxLatencyMs - msOf charges
  tokens_exact : budget.maxTokens ≤ u64Max →
    r.maxTokens = budget.maxTokens - (charges.map BudgetCharge.tokens).sum
  ms_exact : budget.maxLatencyMs ≤ u64Max →
    r.maxLatencyMs = budget.maxLatencyMs - (charges.map BudgetCharge.elapsedMs).sum

theorem remains_run (budget : BudgetContract) (charges : List BudgetCharge) :
    Remains budget charges (Machine.run take (.new budget) charges).remaining := by
  have hexact : ∀ limit n : ℕ, limit ≤ u64Max → limit - min n u64Max = limit - n := by
    intro limit n h
    omega
  rw [run_take]
  exact ⟨rfl, rfl, rfl, hexact _ _, hexact _ _⟩

/-- What fits with more charges fits without them. -/
theorem Fits.of_append {budget : BudgetContract} {charges more : List BudgetCharge}
    (h : Fits budget (charges ++ more)) : Fits budget charges := by
  obtain ⟨htokens, hcost, htime⟩ := h
  refine ⟨?_, ?_, ?_⟩
  · rw [TokensFit, tokensOf, List.map_append, List.sum_append] at htokens
    rw [TokensFit, tokensOf]
    omega
  · have hle : costOf charges ≤ costOf (charges ++ more) := by
      have hsum : costOf (charges ++ more) = costOf charges + costOf more := by
        rw [costOf, List.map_append, List.sum_append]
        rfl
      rw [hsum]
      exact le_add_of_nonneg_right (costOf_nonneg more)
    rw [CostFits] at hcost ⊢
    rcases hlimit : budget.maxCostUsd with q | _ | _ | _
    · rw [hlimit, F64.finite_le, decide_eq_true_eq] at hcost
      rw [F64.finite_le, decide_eq_true_eq]
      exact hle.trans hcost
    · rfl
    · rw [hlimit] at hcost
      cases hcost
    · rw [hlimit] at hcost
      cases hcost
  · rw [TimeFits, msOf, List.map_append, List.sum_append] at htime
    rw [TimeFits, msOf]
    omega

/-! ## The history -/

/-- The first dimension exceeded is reported, and none is when everything fits. -/
theorem verdict_take {budget : BudgetContract} (hlimit : budget.maxCostUsd ≠ .nan)
    (charges : List BudgetCharge) (c : BudgetCharge) :
    Verdict budget (charges ++ [c]) (take (Machine.run take (.new budget) charges) c).1 := by
  have hrun := run_take budget (charges ++ [c])
  rw [Machine.run_concat] at hrun
  have hreply : (take (Machine.run take (.new budget) charges) c).1 =
      (take (Machine.run take (.new budget) charges) c).2.exhausted := rfl
  rw [hreply, hrun, exhausted]
  dsimp only
  have hcost : F64.lt budget.maxCostUsd (.finite (costOf (charges ++ [c]))) = true ↔
      ¬ CostFits budget (charges ++ [c]) := by
    rw [CostFits]
    rcases h : budget.maxCostUsd with q | _ | _ | _
    · simp
    · exact iff_of_false Bool.false_ne_true (not_not.mpr rfl)
    · exact iff_of_true rfl Bool.false_ne_true
    · exact absurd h hlimit
  by_cases htokens : TokensFit budget (charges ++ [c])
  · rw [if_neg (Nat.not_lt.mpr htokens)]
    by_cases hfits : CostFits budget (charges ++ [c])
    · rw [if_neg fun hlt => hcost.mp hlt hfits]
      by_cases htime : TimeFits budget (charges ++ [c])
      · rw [if_neg (Nat.not_lt.mpr htime)]
        exact ⟨iff_of_true rfl ⟨htokens, hfits, htime⟩, iff_of_false nofun (not_not.mpr htokens),
          iff_of_false nofun fun h => h.2 hfits, iff_of_false nofun fun h => h.2.2 htime⟩
      · rw [if_pos (Nat.not_le.mp htime)]
        exact ⟨iff_of_false nofun fun h => htime h.time, iff_of_false nofun (not_not.mpr htokens),
          iff_of_false nofun fun h => h.2 hfits, iff_of_true rfl ⟨htokens, hfits, htime⟩⟩
    · rw [if_pos (hcost.mpr hfits)]
      exact ⟨iff_of_false nofun fun h => hfits h.cost, iff_of_false nofun (not_not.mpr htokens),
        iff_of_true rfl ⟨htokens, hfits⟩, iff_of_false nofun fun h => hfits h.2.1⟩
  · rw [if_pos (Nat.not_le.mp htokens)]
    exact ⟨iff_of_false nofun fun h => htokens h.tokens, iff_of_true rfl htokens,
      iff_of_false nofun fun h => htokens h.1, iff_of_false nofun fun h => htokens h.1⟩

/-- The answer to the k-th charge of a run. -/
theorem verdict_of_getElem? {budget : BudgetContract} (hlimit : budget.maxCostUsd ≠ .nan)
    {charges : List BudgetCharge} {k : ℕ}
    {st : Machine.Step BudgetTracker BudgetCharge (Except BudgetTrackerError Unit)}
    (h : (Machine.trace take (.new budget) charges)[k]? = some st) :
    Verdict budget (charges.take (k + 1)) st.reply := by
  rw [Machine.getElem?_trace, Option.map_eq_some_iff] at h
  obtain ⟨c, hc, rfl⟩ := h
  rw [List.take_add_one, hc]
  exact verdict_take hlimit _ c

/-- **A budget's history.** The k-th charge is accepted exactly when the sums up to it are
within their limits, and otherwise the first dimension exceeded is reported; after a charge
that failed all fail; and what remains is what the sums leave of the limits. -/
theorem charge_history {budget : BudgetContract} (hlimit : budget.maxCostUsd ≠ .nan)
    (charges : List BudgetCharge) :
    (∀ (k : ℕ) st, (Machine.trace take (.new budget) charges)[k]? = some st →
      Verdict budget (charges.take (k + 1)) st.reply) ∧
    (∀ (j k : ℕ) st st', j < k → (Machine.trace take (.new budget) charges)[j]? = some st →
      (Machine.trace take (.new budget) charges)[k]? = some st' →
        st.reply ≠ .ok () → st'.reply ≠ .ok ()) ∧
    ∀ k, Remains budget (charges.take k)
      (Machine.run take (.new budget) (charges.take k)).remaining := by
  refine ⟨fun k st h => verdict_of_getElem? hlimit h, fun j k st st' hjk h h' hfailed hok => ?_,
    fun k => remains_run budget _⟩
  have hfits := (verdict_of_getElem? hlimit h').ok_iff.mp hok
  refine hfailed ((verdict_of_getElem? hlimit h).ok_iff.mpr ?_)
  -- the charges up to the earlier one are a part of those up to the later one
  have htake : charges.take (k + 1) =
      charges.take (j + 1) ++ (charges.take (k + 1)).drop (j + 1) := by
    have hsplit := (List.take_append_drop (j + 1) (charges.take (k + 1))).symm
    rw [List.take_take, min_eq_left (by omega)] at hsplit
    exact hsplit
  rw [htake] at hfits
  exact hfits.of_append

/-- The second charge exceeds the tokens, and the third finds them exceeded. -/
theorem charge_history_three :
    (⟨100, .finite 1, 1000⟩ : BudgetContract).maxCostUsd ≠ .nan ∧
      ∃ st, (Machine.trace take (.new ⟨100, .finite 1, 1000⟩)
          [⟨60, 0, 1, le_rfl⟩, ⟨60, 0, 1, le_rfl⟩, ⟨0, 0, 1, le_rfl⟩])[2]? = some st ∧
        Verdict ⟨100, .finite 1, 1000⟩
          [⟨60, 0, 1, le_rfl⟩, ⟨60, 0, 1, le_rfl⟩, ⟨0, 0, 1, le_rfl⟩] st.reply := by
  have hlimit : (⟨100, .finite 1, 1000⟩ : BudgetContract).maxCostUsd ≠ .nan := nofun
  exact ⟨hlimit, _, rfl, (charge_history hlimit
    [⟨60, 0, 1, le_rfl⟩, ⟨60, 0, 1, le_rfl⟩, ⟨0, 0, 1, le_rfl⟩]).1 2 _ rfl⟩

end BudgetTracker

end Aaf
