import Aaf.Contracts

/-!
# The budget tracker

`BudgetTracker` (`aaf-runtime`, Rule 8): the running totals of one budget. A
charge is added to the totals even when it exhausts the budget. Token and
millisecond counters are `u64` and saturate; the cost does not.
-/

namespace Aaf

/-- `u64::MAX`. -/
def u64Max : ℕ := 2 ^ 64 - 1

/-- `u64::saturating_add`. -/
def saturatingAdd (a b : ℕ) : ℕ := min (a + b) u64Max

/-- The budget that was exhausted. -/
inductive BudgetTrackerError : Type where
  | tokens (budget : ℕ) : BudgetTrackerError
  | cost (budget : F64) : BudgetTrackerError
  | time (budget : ℕ) : BudgetTrackerError
  deriving DecidableEq, Repr

/-- The `Display` rendering. -/
def BudgetTrackerError.display : BudgetTrackerError → String
  | tokens budget => "token budget exhausted (budget " ++ toString budget ++ ")"
  | cost budget => "cost budget exhausted (budget $" ++ budget.fixed 4 ++ ")"
  | time budget => "time budget exhausted (budget " ++ toString budget ++ "ms)"

/-- The tracker's state. -/
structure BudgetTracker where
  initial : BudgetContract
  usedTokens : ℕ
  usedCost : F64
  usedMs : ℕ
  deriving DecidableEq, Repr

namespace BudgetTracker

/-- `BudgetTracker::new`. -/
def new (budget : BudgetContract) : BudgetTracker := ⟨budget, 0, 0, 0⟩

/-- The totals after a charge. -/
def add (t : BudgetTracker) (tokens : ℕ) (costUsd : F64) (elapsedMs : ℕ) : BudgetTracker :=
  { t with
    usedTokens := saturatingAdd t.usedTokens tokens
    usedCost := t.usedCost + costUsd
    usedMs := saturatingAdd t.usedMs elapsedMs }

/-- The first exceeded dimension, in the order tokens, cost, time. -/
def exhausted (t : BudgetTracker) : Except BudgetTrackerError Unit :=
  if t.usedTokens > t.initial.maxTokens then .error (.tokens t.initial.maxTokens)
  else if F64.lt t.initial.maxCostUsd t.usedCost then .error (.cost t.initial.maxCostUsd)
  else if t.usedMs > t.initial.maxLatencyMs then .error (.time t.initial.maxLatencyMs)
  else .ok ()

/-- `BudgetTracker::charge`. -/
def charge (t : BudgetTracker) (tokens : ℕ) (costUsd : F64) (elapsedMs : ℕ) :
    Except BudgetTrackerError Unit × BudgetTracker :=
  let t := t.add tokens costUsd elapsedMs
  (t.exhausted, t)

/-- `BudgetTracker::remaining`. -/
def remaining (t : BudgetTracker) : BudgetContract where
  maxTokens := t.initial.maxTokens - t.usedTokens
  maxCostUsd := F64.max (t.initial.maxCostUsd - t.usedCost) 0
  maxLatencyMs := t.initial.maxLatencyMs - t.usedMs

end BudgetTracker

end Aaf
