import Mathlib.Algebra.BigOperators.Ring.Finset
import Aaf.Agent
import Aaf.Interleaving
import Aaf.Meter

/-!
# Calls under one budget

`CallBudget::call` looks whether anything is left of the budget, asks the provider, and takes what
the response used off the budget. Any number of calls, numbered, do so together; each of the three
is an event of its own, and the provider answers as it likes. Costs are exact.

Calls in flight have looked already. So what is left is the budget less what has been used, and at
most one call overruns the budget, exactly when the calls that are in flight as it is overrun do
not use anything behind it: `bounded_by_budget_iff`.
-/

namespace Aaf

/-- Errors of `CallBudget::call`. -/
inductive CallBudgetError : Type where
  | exhausted : CallBudgetError
  | provider (e : LLMError) : CallBudgetError
  deriving DecidableEq, Repr

/-- The tokens that a response has used. -/
def ChatResponse.usedTokens (resp : ChatResponse) : ℕ := resp.tokensIn + resp.tokensOut

/-- Nothing is left of the tokens, or of the cost. -/
def BudgetContract.exhausted (r : BudgetContract) : Bool :=
  decide (r.maxTokens = 0) || F64.le r.maxCostUsd 0

/-- What is left when a response has been taken off. -/
def BudgetContract.charge (r : BudgetContract) (resp : ChatResponse) : BudgetContract :=
  { r with
    maxTokens := r.maxTokens - resp.usedTokens
    maxCostUsd := F64.max (r.maxCostUsd - resp.costUsd) 0 }

/-- `CallBudget::call`, when it runs alone: its result, and what is left of the budget. -/
def CallBudget.call (answer : Except LLMError ChatResponse) (remaining : BudgetContract) :
    Except CallBudgetError ChatResponse × BudgetContract :=
  if remaining.exhausted then (.error .exhausted, remaining)
  else
    match answer with
    | .error e => (.error (.provider e), remaining)
    | .ok resp => (.ok resp, remaining.charge resp)

namespace CallBudget

open Interleaving

/-! ## The system -/

/-- How far a call has come. -/
inductive Phase : Type where
  | idle : Phase
  /-- the budget is not exhausted -/
  | checked : Phase
  /-- the provider has answered -/
  | answered (resp : ChatResponse) : Phase
  | done (result : Except CallBudgetError ChatResponse) : Phase

/-- The events of a call. -/
inductive CallEvent : Type where
  | check : CallEvent
  | answer (reply : Except LLMError ChatResponse) : CallEvent
  | decrement : CallEvent

/-- What is left of the budget, and the completed calls in order, which the code does not keep. -/
structure Account where
  remaining : BudgetContract
  completed : List (ℕ × ChatResponse)

/-- One event of the call `k`. -/
def next (k : ℕ) : CallEvent → Account → Phase → Option (Account × Phase)
  | .check, a, .idle =>
    some (a, if a.remaining.exhausted then .done (.error .exhausted) else .checked)
  | .answer (.error e), a, .checked => some (a, .done (.error (.provider e)))
  | .answer (.ok resp), a, .checked => some (a, .answered resp)
  | .decrement, a, .answered resp =>
    some (⟨a.remaining.charge resp, a.completed ++ [(k, resp)]⟩, .done (.ok resp))
  | _, _, _ => none

/-- Before any event. -/
def start (initial : BudgetContract) : Shared Account Phase := ⟨⟨initial, []⟩, fun _ => .idle⟩

/-- The call has looked at the budget, and is not done. -/
def Phase.InFlight : Phase → Prop
  | .checked => True
  | .answered _ => True
  | _ => False

section Events

variable {k : ℕ} {s t : Shared Account Phase}

/-- What an event asks of a call and does. -/
inductive Stepped (s : Shared Account Phase) (k : ℕ) : CallEvent → Shared Account Phase → Prop
  | checked (hidle : s.phase k = .idle) :
      Stepped s k .check (s.put k s.value
        (if s.value.remaining.exhausted then .done (.error .exhausted) else .checked))
  | failed (e : LLMError) (hchecked : s.phase k = .checked) :
      Stepped s k (.answer (.error e)) (s.put k s.value (.done (.error (.provider e))))
  | answered (resp : ChatResponse) (hchecked : s.phase k = .checked) :
      Stepped s k (.answer (.ok resp)) (s.put k s.value (.answered resp))
  | decremented (resp : ChatResponse) (hanswered : s.phase k = .answered resp) :
      Stepped s k .decrement (s.put k
        ⟨s.value.remaining.charge resp, s.value.completed ++ [(k, resp)]⟩ (.done (.ok resp)))

theorem step_iff {e : CallEvent} : step next s (k, e) = .ok t ↔ Stepped s k e t := by
  constructor
  · intro h
    obtain ⟨v, p, hnext, rfl⟩ := step_ok_iff.mp h
    cases hphase : s.phase k with
    | idle =>
      rw [hphase] at hnext
      rcases e with _ | ⟨e | resp⟩ | _ <;> cases hnext
      exact .checked hphase
    | checked =>
      rw [hphase] at hnext
      rcases e with _ | ⟨e | resp⟩ | _ <;> cases hnext
      · exact .failed e hphase
      · exact .answered resp hphase
    | answered resp =>
      rw [hphase] at hnext
      rcases e with _ | ⟨e | resp'⟩ | _ <;> cases hnext
      exact .decremented resp hphase
    | done result =>
      rw [hphase] at hnext
      rcases e with _ | ⟨e | resp⟩ | _ <;> cases hnext
  · intro h
    cases h with
    | checked hidle => exact step_ok_iff.mpr ⟨_, _, by rw [hidle]; rfl, rfl⟩
    | failed e hchecked => exact step_ok_iff.mpr ⟨_, _, by rw [hchecked]; rfl, rfl⟩
    | answered resp hchecked => exact step_ok_iff.mpr ⟨_, _, by rw [hchecked]; rfl, rfl⟩
    | decremented resp hanswered => exact step_ok_iff.mpr ⟨_, _, by rw [hanswered]; rfl, rfl⟩

/-- A call that is done takes no step. -/
theorem next_done (e : CallEvent) (a : Account) (result : Except CallBudgetError ChatResponse) :
    next k e a (.done result) = none := by
  rcases e with _ | ⟨_ | _⟩ | _ <;> rfl

/-- **A call without others.** One that runs alone is `call`. -/
theorem alone_eq_call (answer : Except LLMError ChatResponse) (hidle : s.phase k = .idle) :
    ∃ events t, Runs (step next) s events t ∧
      t.phase k = .done (call answer s.value.remaining).1 ∧
      t.value.remaining = (call answer s.value.remaining).2 := by
  have hcheck := step_iff.mpr (Stepped.checked hidle)
  unfold call
  split_ifs at hcheck ⊢ with hexhausted
  · exact ⟨_, _, Runs.cons_iff.mpr ⟨_, hcheck, Runs.nil _⟩, s.phase_put_self .., rfl⟩
  · rcases answer with e | resp
    · have hanswer := step_iff.mpr (Stepped.failed e (s.phase_put_self k s.value .checked))
      exact ⟨_, _, Runs.cons_iff.mpr ⟨_, hcheck, Runs.cons_iff.mpr ⟨_, hanswer, Runs.nil _⟩⟩,
        Shared.phase_put_self .., rfl⟩
    · have hanswer := step_iff.mpr (Stepped.answered resp (s.phase_put_self k s.value .checked))
      have hdecrement := step_iff.mpr (Stepped.decremented resp
        ((s.put k s.value .checked).phase_put_self k s.value (.answered resp)))
      exact ⟨_, _, Runs.cons_iff.mpr ⟨_, hcheck, Runs.cons_iff.mpr ⟨_, hanswer,
        Runs.cons_iff.mpr ⟨_, hdecrement, Runs.nil _⟩⟩⟩, Shared.phase_put_self .., rfl⟩

end Events

/-! ## What a budget limits -/

/-- A part of a budget. -/
inductive Dimension : Type where
  | tokens : Dimension
  | cost : Dimension

namespace Dimension

/-- What a completed call has used of it. -/
def used : Dimension → ℕ × ChatResponse → ℚ
  | tokens, c => c.2.usedTokens
  | cost, c => c.2.costUsd.value

/-- How much of it there is in a budget. -/
def amount : Dimension → BudgetContract → ℚ
  | tokens, r => r.maxTokens
  | cost, r => r.maxCostUsd.value

end Dimension

section Amounts

variable {r : BudgetContract} {resp : ChatResponse}

theorem cast_tsub (m n : ℕ) : ((m - n : ℕ) : ℚ) = max ((m : ℚ) - n) 0 := by
  rcases le_total n m with h | h
  · rw [Nat.cast_sub h, max_eq_left (sub_nonneg.mpr (Nat.cast_le.mpr h))]
  · rw [Nat.sub_eq_zero_of_le h, Nat.cast_zero,
      max_eq_right (sub_nonpos.mpr (Nat.cast_le.mpr h))]

theorem amount_charge (hr : r.maxCostUsd.isFinite = true) (hresp : resp.costUsd.isFinite = true)
    (d : Dimension) (k : ℕ) :
    d.amount (r.charge resp) = max (d.amount r - d.used (k, resp)) 0 := by
  cases d with
  | tokens => exact cast_tsub _ _
  | cost =>
    rw [Dimension.amount, Dimension.amount, Dimension.used, BudgetContract.charge,
      F64.eq_finite_value hr, F64.eq_finite_value hresp]
    simp

theorem isFinite_charge (hr : r.maxCostUsd.isFinite = true)
    (hresp : resp.costUsd.isFinite = true) : (r.charge resp).maxCostUsd.isFinite = true := by
  rw [BudgetContract.charge, F64.eq_finite_value hr, F64.eq_finite_value hresp]
  simp [F64.isFinite]

/-- A budget is exhausted when nothing is left of some part. -/
theorem exhausted_iff (hr : r.maxCostUsd.isFinite = true) :
    r.exhausted = true ↔ ∃ d : Dimension, d.amount r ≤ 0 := by
  rw [BudgetContract.exhausted, Bool.or_eq_true, decide_eq_true_iff, F64.eq_finite_value hr]
  constructor
  · rintro (htokens | hcost)
    · exact ⟨.tokens, by rw [Dimension.amount, htokens, Nat.cast_zero]⟩
    · exact ⟨.cost, by simpa [Dimension.amount] using hcost⟩
  · rintro ⟨_ | _, h⟩
    · exact Or.inl (by simpa [Dimension.amount] using h)
    · exact Or.inr (by simpa [Dimension.amount] using h)

/-- The budget less what the completed calls have used, but not below zero. -/
def less (initial : BudgetContract) (completed : List (ℕ × ChatResponse)) : BudgetContract where
  maxTokens := initial.maxTokens - (completed.map fun c => c.2.usedTokens).sum
  maxCostUsd :=
    F64.max (initial.maxCostUsd - (completed.map fun c => c.2.costUsd).sum) 0
  maxLatencyMs := initial.maxLatencyMs

theorem sum_costs {completed : List (ℕ × ChatResponse)}
    (hcompleted : ∀ c ∈ completed, c.2.costUsd.isFinite = true) :
    (completed.map fun c => c.2.costUsd).sum =
      .finite (Meter.total Dimension.cost.used completed) := by
  rw [F64.sum_eq_finite, List.map_map]
  · rfl
  · intro a ha
    obtain ⟨c, hc, rfl⟩ := List.mem_map.mp ha
    exact hcompleted c hc

/-- Part by part it is the amount less the total. -/
theorem amount_less {initial : BudgetContract} {completed : List (ℕ × ChatResponse)}
    (hinitial : initial.maxCostUsd.isFinite = true)
    (hcompleted : ∀ c ∈ completed, c.2.costUsd.isFinite = true) (d : Dimension) :
    d.amount (less initial completed) =
      max (d.amount initial - Meter.total d.used completed) 0 := by
  cases d with
  | tokens =>
    rw [Dimension.amount, less, cast_tsub, Dimension.amount, Meter.total, Nat.cast_list_sum,
      List.map_map]
    rfl
  | cost =>
    rw [Dimension.amount, Dimension.amount, less, sum_costs hcompleted,
      F64.eq_finite_value hinitial]
    simp

theorem isFinite_less {initial : BudgetContract} {completed : List (ℕ × ChatResponse)}
    (hinitial : initial.maxCostUsd.isFinite = true)
    (hcompleted : ∀ c ∈ completed, c.2.costUsd.isFinite = true) :
    (less initial completed).maxCostUsd.isFinite = true := by
  rw [less, sum_costs hcompleted, F64.eq_finite_value hinitial]
  simp [F64.isFinite]

/-- Budgets with finite costs are equal when their parts are. -/
theorem ext_amount {r r' : BudgetContract} (hr : r.maxCostUsd.isFinite = true)
    (hr' : r'.maxCostUsd.isFinite = true) (hlatency : r.maxLatencyMs = r'.maxLatencyMs)
    (h : ∀ d : Dimension, d.amount r = d.amount r') : r = r' := by
  have htokens : r.maxTokens = r'.maxTokens := Nat.cast_injective (R := ℚ) (h .tokens)
  have hcost : r.maxCostUsd = r'.maxCostUsd := by
    rw [F64.eq_finite_value hr, F64.eq_finite_value hr']
    exact congrArg F64.finite (h .cost)
  cases r
  cases r'
  exact BudgetContract.mk.injEq .. |>.mpr ⟨htokens, hcost, hlatency⟩

end Amounts

/-! ## Along a run -/

section Runs

variable {initial : BudgetContract} {events : List (ℕ × CallEvent)} {s t : Shared Account Phase}

/-- The costs that the state holds are finite, and completed calls are done. -/
structure Exact (initial : BudgetContract) (s : Shared Account Phase) : Prop where
  latency : s.value.remaining.maxLatencyMs = initial.maxLatencyMs
  remaining : s.value.remaining.maxCostUsd.isFinite = true
  answered : ∀ k resp, s.phase k = .answered resp → resp.costUsd.isFinite = true
  completed : ∀ c ∈ s.value.completed, c.2.costUsd.isFinite = true
  done : ∀ c ∈ s.value.completed, ∃ result, s.phase c.1 = .done result

/-- The responses of the events have finite costs. -/
def FiniteCosts (events : List (ℕ × CallEvent)) : Prop :=
  ∀ k resp, (k, .answer (.ok resp)) ∈ events → resp.costUsd.isFinite = true

theorem FiniteCosts.of_append {more : List (ℕ × CallEvent)} (h : FiniteCosts (events ++ more)) :
    FiniteCosts events := fun k resp hmem => h k resp (List.mem_append_left _ hmem)

theorem Exact.start (hinitial : initial.maxCostUsd.isFinite = true) :
    Exact initial (start initial) where
  latency := rfl
  remaining := hinitial
  answered k resp h := by cases h
  completed c hc := absurd hc List.not_mem_nil
  done c hc := absurd hc List.not_mem_nil

/-- A call that is not done goes over to another phase, which leaves the account. -/
theorem Exact.put {k : ℕ} {p : Phase} (h : Exact initial s)
    (hphase : ∀ result, s.phase k ≠ .done result)
    (hp : ∀ resp, p = .answered resp → resp.costUsd.isFinite = true) :
    Exact initial (s.put k s.value p) where
  latency := h.latency
  remaining := h.remaining
  answered j resp hj := by
    by_cases hjk : j = k
    · subst hjk
      rw [Shared.phase_put_self] at hj
      exact hp resp hj
    · rw [Shared.phase_put_of_ne _ _ _ _ hjk] at hj
      exact h.answered j resp hj
  completed := h.completed
  done c hc := by
    obtain ⟨result, hresult⟩ := h.done c hc
    have hne : c.1 ≠ k := by
      intro heq
      rw [heq] at hresult
      exact hphase result hresult
    exact ⟨result, by rw [Shared.phase_put_of_ne _ _ _ _ hne, hresult]⟩

theorem Exact.step {k : ℕ} {e : CallEvent} (h : Exact initial s) (hstep : Stepped s k e t)
    (hcost : ∀ resp, e = .answer (.ok resp) → resp.costUsd.isFinite = true) : Exact initial t := by
  cases hstep with
  | checked hidle =>
    refine h.put (fun result hdone => by rw [hidle] at hdone; cases hdone) fun resp hresp => ?_
    split_ifs at hresp
  | failed e hchecked =>
    exact h.put (fun result hdone => by rw [hchecked] at hdone; cases hdone)
      fun resp hresp => by cases hresp
  | answered resp hchecked =>
    refine h.put (fun result hdone => by rw [hchecked] at hdone; cases hdone) fun resp' hresp => ?_
    cases hresp
    exact hcost resp rfl
  | decremented resp hanswered =>
    have hresp := h.answered k resp hanswered
    have hput : Exact initial (s.put k s.value (.done (.ok resp))) :=
      h.put (fun result hdone => by rw [hanswered] at hdone; cases hdone)
        fun resp' hresp' => by cases hresp'
    refine ⟨hput.latency, isFinite_charge h.remaining hresp, hput.answered, fun c hc => ?_,
      fun c hc => ?_⟩
    · rcases List.mem_append.mp hc with hc | hc
      · exact h.completed c hc
      · rw [List.mem_singleton.mp hc]
        exact hresp
    · rcases List.mem_append.mp hc with hc | hc
      · exact hput.done c hc
      · rw [List.mem_singleton.mp hc]
        exact ⟨_, s.phase_put_self ..⟩

theorem exact_of_runs (h : Runs (step next) (start initial) events t)
    (hinitial : initial.maxCostUsd.isFinite = true) (hfinite : FiniteCosts events) :
    Exact initial t := by
  refine Runs.invariant (Exact.start hinitial) (fun s t ⟨k, e⟩ hmem hs hstep => ?_) h
  exact hs.step (step_iff.mp hstep) fun resp hresp => hfinite k resp (hresp ▸ hmem)

/-- Calls that are completed stay so. -/
theorem completed_of_runs (h : Runs (step next) s events t) :
    ∃ more, t.value.completed = s.value.completed ++ more := by
  refine Runs.invariant
    (I := fun u : Shared Account Phase => ∃ more, u.value.completed = s.value.completed ++ more)
    ⟨[], (List.append_nil _).symm⟩ (fun u w ⟨k, e⟩ _ hu hstep => ?_) h
  obtain ⟨more, hmore⟩ := hu
  cases step_iff.mp hstep with
  | decremented resp hanswered =>
    exact ⟨more ++ [(k, resp)], by rw [Shared.value_put, hmore, List.append_assoc]⟩
  | _ => exact ⟨more, hmore⟩

/-- Where nothing is left, no call comes in flight. -/
theorem inFlight_of_runs {j : ℕ} (h : Runs (step next) s events t)
    (hexhausted : ∀ pre post u, events = pre ++ post → Runs (step next) s pre u →
      u.value.remaining.exhausted = true)
    (ht : (t.phase j).InFlight) : (s.phase j).InFlight := by
  induction events using List.reverseRecOn generalizing t with
  | nil =>
    cases h
    exact ht
  | append_singleton events last ih =>
    obtain ⟨i, e⟩ := last
    obtain ⟨u, hu, hstep⟩ := Runs.concat_iff.mp h
    have hpre : ∀ pre post w, events = pre ++ post → Runs (step next) s pre w →
        w.value.remaining.exhausted = true := by
      rintro pre post w rfl hw
      exact hexhausted pre (post ++ [(i, e)]) w (by rw [List.append_assoc]) hw
    refine ih hu hpre ?_
    by_cases hij : j = i
    · subst hij
      cases step_iff.mp hstep with
      | checked hidle =>
        -- the call is told that nothing is left
        rw [hexhausted events [(j, .check)] u rfl hu, if_pos rfl, Shared.phase_put_self] at ht
        exact ht.elim
      | failed e hchecked =>
        rw [hchecked]
        trivial
      | answered resp hchecked =>
        rw [hchecked]
        trivial
      | decremented resp hanswered =>
        rw [hanswered]
        trivial
    · rw [phase_of_ne hstep hij] at ht
      exact ht

/-! ## What is left -/

/-- The budget has no negative part. -/
def NonNegative (initial : BudgetContract) : Prop := ∀ d : Dimension, 0 ≤ d.amount initial

theorem nonNegative_iff (hinitial : initial.maxCostUsd.isFinite = true) :
    F64.le 0 initial.maxCostUsd = true ↔ NonNegative initial := by
  rw [F64.eq_finite_value hinitial, F64.zero_eq, F64.finite_le, decide_eq_true_iff]
  refine ⟨fun h d => ?_, fun h => h .cost⟩
  cases d with
  | tokens => exact Nat.cast_nonneg _
  | cost => exact h

/-- What has been used is settled, part by part. -/
def Settled (initial : BudgetContract) (completed : List (ℕ × ChatResponse)) : Prop :=
  ∀ d : Dimension, Meter.Settled d.used (d.amount initial) completed

/-- What has been used was settled before, too. -/
theorem Settled.of_runs (h : Settled initial t.value.completed)
    (hrun : Runs (step next) s events t) :
    Settled initial s.value.completed := by
  intro d
  obtain ⟨later, hlater⟩ := completed_of_runs hrun
  have hd := h d
  rw [hlater] at hd
  exact hd.of_append

/-- While what has been used is settled, the budget less what has been used is left. -/
theorem amount_remaining (h : Runs (step next) (start initial) events t)
    (hinitial : initial.maxCostUsd.isFinite = true) (hfinite : FiniteCosts events)
    (hnonneg : NonNegative initial) (hsettled : Settled initial t.value.completed)
    (d : Dimension) :
    d.amount t.value.remaining =
      max (d.amount initial - Meter.total d.used t.value.completed) 0 := by
  induction events using List.reverseRecOn generalizing t with
  | nil =>
    cases h
    rw [start, Meter.total_nil, sub_zero, max_eq_left (hnonneg d)]
  | append_singleton events last ih =>
    obtain ⟨k, e⟩ := last
    obtain ⟨s, hs, hstep⟩ := Runs.concat_iff.mp h
    have hfinite' := hfinite.of_append
    cases step_iff.mp hstep with
    | decremented resp hanswered =>
      have hexact := exact_of_runs hs hinitial hfinite'
      have hsettled' : Settled initial s.value.completed := fun d => (hsettled d).of_append
      rw [Shared.value_put, amount_charge hexact.remaining (hexact.answered k resp hanswered) d k,
        ih hs hfinite' hsettled']
      exact Meter.shows_concat (Meter.settled_concat_iff.mp (hsettled d)).2
    | _ =>
      have hsame := ih hs hfinite' hsettled
      exact hsame

/-- Once the total of some part has come to its limit, the budget is exhausted. -/
theorem exhausted_of_settled (h : Runs (step next) (start initial) events t)
    (hinitial : initial.maxCostUsd.isFinite = true) (hfinite : FiniteCosts events)
    (hnonneg : NonNegative initial) (hsettled : Settled initial t.value.completed)
    {d : Dimension} (hd : d.amount initial ≤ Meter.total d.used t.value.completed) :
    t.value.remaining.exhausted = true := by
  refine (exhausted_iff (exact_of_runs h hinitial hfinite).remaining).mpr ⟨d, ?_⟩
  rw [amount_remaining h hinitial hfinite hnonneg hsettled]
  exact max_le (sub_nonpos.mpr hd) (le_refl 0)

/-- **A quiet overrun.** As the total of the part goes above its limit, the calls that are in
flight and complete later do not use anything of it. -/
def QuietOverrun (initial : BudgetContract) (events : List (ℕ × CallEvent))
    (t : Shared Account Phase) (d : Dimension) : Prop :=
  ∀ pre k post s s', events = pre ++ (k, .decrement) :: post →
    Runs (step next) (start initial) pre s → step next s (k, .decrement) = .ok s' →
    Meter.total d.used s.value.completed ≤ d.amount initial →
    d.amount initial < Meter.total d.used s'.value.completed →
    ∀ j resp, (s'.phase j).InFlight → (j, resp) ∈ t.value.completed → d.used (j, resp) = 0

theorem quietOverrun_of_settled (h : Runs (step next) (start initial) events t)
    (hinitial : initial.maxCostUsd.isFinite = true) (hfinite : FiniteCosts events)
    (hsettled : Settled initial t.value.completed) (d : Dimension) :
    QuietOverrun initial events t d := by
  rintro pre k post s s' rfl hs hstep - hover j resp hflight hmem
  rw [List.append_cons] at h hfinite
  obtain ⟨u, hu, hpost⟩ := Runs.append_iff.mp h
  obtain rfl := hu.unique (Runs.concat_iff.mpr ⟨s, hs, hstep⟩)
  obtain ⟨more, hmore⟩ := completed_of_runs hpost
  have hd := hsettled d
  rw [hmore] at hd hmem
  rcases List.mem_append.mp hmem with hdone | hlater
  · obtain ⟨result, hresult⟩ := (exact_of_runs hu hinitial hfinite.of_append).done _ hdone
    rw [hresult] at hflight
    exact hflight.elim
  · exact (hd.behind hover).2 _ hlater

/-- Behind an overrun the budget is exhausted, as long as what has been used is settled. -/
theorem exhausted_behind {more : List (ℕ × CallEvent)} {u : Shared Account Phase} {d : Dimension}
    (hu : Runs (step next) (start initial) events u) (hmore : Runs (step next) u more s)
    (hinitial : initial.maxCostUsd.isFinite = true) (hfinite : FiniteCosts (events ++ more))
    (hnonneg : NonNegative initial) (hsettled : Settled initial s.value.completed)
    (hover : d.amount initial < Meter.total d.used u.value.completed) :
    s.value.remaining.exhausted = true := by
  obtain ⟨later, hlater⟩ := completed_of_runs hmore
  have hd := hsettled d
  rw [hlater] at hd
  refine exhausted_of_settled (Runs.append_iff.mpr ⟨u, hu, hmore⟩) hinitial hfinite hnonneg
    hsettled (d := d) ?_
  rw [hlater, (hd.behind hover).1]
  exact hover.le

/-- A response that is taken off in a run is completed after it. -/
theorem mem_completed_of_decrement {pre post : List (ℕ × CallEvent)} {j : ℕ} {resp : ChatResponse}
    (h : Runs (step next) (start initial) (pre ++ (j, .decrement) :: post) t)
    (hs : Runs (step next) (start initial) pre s) (hanswered : s.phase j = .answered resp) :
    (j, resp) ∈ t.value.completed := by
  rw [List.append_cons] at h
  obtain ⟨s', hs', hpost⟩ := Runs.append_iff.mp h
  obtain rfl := hs'.unique
    (Runs.concat_iff.mpr ⟨s, hs, step_iff.mpr (.decremented resp hanswered)⟩)
  obtain ⟨later, hlater⟩ := completed_of_runs hpost
  rw [hlater, Shared.value_put]
  simp

/-- A call that is in flight later on behind an overrun was in flight as it came about. -/
theorem inFlight_behind {more : List (ℕ × CallEvent)} {u : Shared Account Phase} {d : Dimension}
    {j : ℕ} (hu : Runs (step next) (start initial) events u) (hmore : Runs (step next) u more s)
    (hinitial : initial.maxCostUsd.isFinite = true) (hfinite : FiniteCosts (events ++ more))
    (hnonneg : NonNegative initial) (hsettled : Settled initial s.value.completed)
    (hover : d.amount initial < Meter.total d.used u.value.completed)
    (hflight : (s.phase j).InFlight) : (u.phase j).InFlight := by
  refine inFlight_of_runs hmore ?_ hflight
  rintro m₁ m₂ w rfl hw
  obtain ⟨w', hw', hrest⟩ := Runs.append_iff.mp hmore
  obtain rfl := hw.unique hw'
  rw [← List.append_assoc] at hfinite
  exact exhausted_behind hu hw hinitial hfinite.of_append hnonneg (hsettled.of_runs hrest) hover

/-- The response that completes behind an overrun belongs to a call that was in flight at it. -/
theorem used_eq_zero_of_quietOverrun {pre post : List (ℕ × CallEvent)} {j : ℕ}
    {resp : ChatResponse} {d : Dimension} (h : Runs (step next) (start initial) events t)
    (hsplit : events = pre ++ (j, .decrement) :: post) (hs : Runs (step next) (start initial) pre s)
    (hanswered : s.phase j = .answered resp) (hinitial : initial.maxCostUsd.isFinite = true)
    (hfinite : FiniteCosts events) (hnonneg : NonNegative initial)
    (hsettled : Settled initial s.value.completed) (hquiet : QuietOverrun initial events t d)
    (hover : d.amount initial < Meter.total d.used s.value.completed) : d.used (j, resp) = 0 := by
  obtain ⟨before, ⟨k, e⟩, mid, u, u', rfl, hu, hcross, hmid, hbelow, habove⟩ :=
    Runs.crossed
      (P := fun w : Shared Account Phase => d.amount initial < Meter.total d.used w.value.completed)
      hs (not_lt.mpr (hnonneg d)) hover
  have hu' : Runs (step next) (start initial) (before ++ [(k, e)]) u' :=
    Runs.concat_iff.mpr ⟨u, hu, hcross⟩
  have hfinite' : FiniteCosts ((before ++ [(k, e)]) ++ mid) := by
    rw [hsplit] at hfinite
    simpa using hfinite.of_append
  have hflight : (u'.phase j).InFlight :=
    inFlight_behind hu' hmid hinitial hfinite' hnonneg hsettled habove (by rw [hanswered]; trivial)
  have hmem : (j, resp) ∈ t.value.completed := by
    rw [hsplit] at h
    exact mem_completed_of_decrement h hs hanswered
  cases step_iff.mp hcross with
  | decremented resp' hanswered' =>
    exact hquiet before k (mid ++ (j, .decrement) :: post) u _ (by simp [hsplit]) hu hcross
      (not_lt.mp hbelow) habove j resp hflight hmem
  | _ => exact absurd habove hbelow

/-- What has been used is settled when no response that completes behind an overrun uses
anything. -/
theorem settled_of_decrements (h : Runs (step next) (start initial) events t)
    (hstep : ∀ pre j post s resp, events = pre ++ (j, .decrement) :: post →
      Runs (step next) (start initial) pre s → s.phase j = .answered resp →
      Settled initial s.value.completed → ∀ d : Dimension,
        d.amount initial < Meter.total d.used s.value.completed → d.used (j, resp) = 0) :
    Settled initial t.value.completed := by
  induction events using List.reverseRecOn generalizing t with
  | nil =>
    cases h
    exact fun d => Meter.settled_nil
  | append_singleton events last ih =>
    obtain ⟨j, e⟩ := last
    obtain ⟨s, hs, hlast⟩ := Runs.concat_iff.mp h
    have hsettled : Settled initial s.value.completed := by
      refine ih hs fun pre i post u resp hsplit => ?_
      exact hstep pre i (post ++ [(j, e)]) u resp (by simp [hsplit])
    cases step_iff.mp hlast with
    | decremented resp hanswered =>
      exact fun d => Meter.settled_concat_iff.mpr
        ⟨hsettled d, hstep events j [] s resp rfl hs hanswered hsettled d⟩
    | _ => exact hsettled

/-! ## The budget bounds the calls -/

/-- **Bounded by the budget.** What is left is always the budget less what the completed calls have
used; at most one of them overruns a part of it; and a call that starts once the total of a part
has come to its limit is told so, and never reaches the provider. -/
structure BoundedByBudget (initial : BudgetContract) (events : List (ℕ × CallEvent)) : Prop where
  remaining : ∀ pre post s, events = pre ++ post → Runs (step next) (start initial) pre s →
    s.value.remaining = less initial s.value.completed
  once_over : ∀ t, Runs (step next) (start initial) events t →
    ∀ d : Dimension, Meter.OnceOver d.used (d.amount initial) t.value.completed
  exhausted : ∀ pre k post s, events = pre ++ (k, .check) :: post →
    Runs (step next) (start initial) (pre ++ [(k, .check)]) s →
    (∃ d : Dimension, d.amount initial ≤ Meter.total d.used s.value.completed) →
    s.phase k = .done (.error .exhausted) ∧ ∀ reply, (k, .answer reply) ∉ post

theorem nonNegative_of_bounded (hinitial : initial.maxCostUsd.isFinite = true)
    (h : BoundedByBudget initial events) : NonNegative initial := by
  intro d
  have hless : initial = less initial [] := h.remaining [] events (start initial) rfl (Runs.nil _)
  rw [hless, amount_less hinitial fun c hc => absurd hc List.not_mem_nil]
  exact le_max_right _ _

theorem settled_of_bounded (h : Runs (step next) (start initial) events t)
    (hinitial : initial.maxCostUsd.isFinite = true) (hfinite : FiniteCosts events)
    (hbounded : BoundedByBudget initial events) : Settled initial t.value.completed := by
  refine settled_of_decrements h ?_
  intro pre j post s resp hsplit hs hanswered _ d hover
  have hs' := Runs.concat_iff.mpr ⟨s, hs, step_iff.mpr (Stepped.decremented resp hanswered)⟩
  rw [List.append_cons] at hsplit
  rw [hsplit] at hfinite
  have hexact := exact_of_runs hs hinitial hfinite.of_append.of_append
  have hexact' := exact_of_runs hs' hinitial hfinite.of_append
  have hbefore := hbounded.remaining pre _ s (by rw [hsplit, List.append_assoc]) hs
  have hafter := hbounded.remaining _ post _ hsplit hs'
  have honce : Meter.OnceOver d.used (d.amount initial) (s.value.completed ++ [(j, resp)]) := by
    have hwhole := hbounded.once_over t h d
    rw [hsplit] at h
    obtain ⟨u, hu, hpost⟩ := Runs.append_iff.mp h
    obtain rfl := hs'.unique hu
    obtain ⟨later, hlater⟩ := completed_of_runs hpost
    rw [hlater] at hwhole
    exact hwhole.of_append
  refine Meter.used_eq_zero (nonNegative_of_bounded hinitial hbounded d) honce ?_ hover
  rw [← amount_less hinitial hexact.completed d, ← hbefore,
    ← amount_charge hexact.remaining (hexact.answered j resp hanswered) d j]
  exact (congrArg d.amount hafter).trans (amount_less hinitial hexact'.completed d)

/-- While what has been used is settled, what is left is the budget less what has been used. -/
theorem remaining_of_settled (h : Runs (step next) (start initial) events t)
    (hinitial : initial.maxCostUsd.isFinite = true) (hfinite : FiniteCosts events)
    (hnonneg : NonNegative initial) (hsettled : Settled initial t.value.completed) :
    t.value.remaining = less initial t.value.completed := by
  have hexact := exact_of_runs h hinitial hfinite
  refine ext_amount hexact.remaining (isFinite_less hinitial hexact.completed) hexact.latency
    fun d => ?_
  rw [amount_less hinitial hexact.completed,
    amount_remaining h hinitial hfinite hnonneg hsettled]

/-- A call that looks at an exhausted budget is told so, and never reaches the provider. -/
theorem exhausted_of_check {k : ℕ} {post : List (ℕ × CallEvent)} {u : Shared Account Phase}
    (hstep : step next u (k, .check) = .ok s) (hexhausted : u.value.remaining.exhausted = true)
    (hpost : Runs (step next) s post t) :
    s.phase k = .done (.error .exhausted) ∧ ∀ reply, (k, .answer reply) ∉ post := by
  cases step_iff.mp hstep with
  | checked hidle =>
    rw [hexhausted, if_pos rfl] at hpost ⊢
    refine ⟨Shared.phase_put_self .., fun reply => ?_⟩
    exact (hpost.final (fun e v => next_done ..) (Shared.phase_put_self ..)).2 _

/-- **When the budget bounds the calls**, in a run in which all costs are finite: when its cost is
not negative and no part of it is overrun by a call with others in flight that use something behind
it. -/
theorem bounded_by_budget_iff (h : Runs (step next) (start initial) events t)
    (hinitial : initial.maxCostUsd.isFinite = true) (hfinite : FiniteCosts events) :
    BoundedByBudget initial events ↔
      F64.le 0 initial.maxCostUsd = true ∧ ∀ d, QuietOverrun initial events t d := by
  rw [nonNegative_iff hinitial]
  constructor
  · intro hbounded
    exact ⟨nonNegative_of_bounded hinitial hbounded, quietOverrun_of_settled h hinitial hfinite
      (settled_of_bounded h hinitial hfinite hbounded)⟩
  · rintro ⟨hnonneg, hquiet⟩
    have hsettled : Settled initial t.value.completed :=
      settled_of_decrements h fun pre j post s resp hsplit hs hanswered hsettled d =>
        used_eq_zero_of_quietOverrun h hsplit hs hanswered hinitial hfinite hnonneg hsettled
          (hquiet d)
    have hpast : ∀ pre post s, events = pre ++ post → Runs (step next) (start initial) pre s →
        FiniteCosts pre ∧ Settled initial s.value.completed := by
      rintro pre post s rfl hs
      obtain ⟨u, hu, hpost⟩ := Runs.append_iff.mp h
      obtain rfl := hs.unique hu
      exact ⟨hfinite.of_append, hsettled.of_runs hpost⟩
    refine ⟨fun pre post s hsplit hs => ?_, fun u hu d => ?_, ?_⟩
    · obtain ⟨hfinite', hsettled'⟩ := hpast pre post s hsplit hs
      exact remaining_of_settled hs hinitial hfinite' hnonneg hsettled'
    · rw [hu.unique h]
      exact (hsettled d).onceOver
    · rintro pre k post s hsplit hs ⟨d, hd⟩
      obtain ⟨u, hu, hstep⟩ := Runs.concat_iff.mp hs
      obtain ⟨hfinite', hsettled'⟩ := hpast pre _ u hsplit hu
      rw [hsplit, List.append_cons] at h
      obtain ⟨w, hw, hpost⟩ := Runs.append_iff.mp h
      obtain rfl := hs.unique hw
      have hcompleted : s.value.completed = u.value.completed := by
        cases step_iff.mp hstep with
        | checked hidle => rfl
      rw [hcompleted] at hd
      exact exhausted_of_check hstep
        (exhausted_of_settled hu hinitial hfinite' hnonneg hsettled' hd) hpost

end Runs

namespace SampleBudget

def initial : BudgetContract := ⟨10, .finite 1, 1000⟩

/-- A response that uses more tokens than there are. -/
def response : ChatResponse := ⟨"hi", 5, 15, .finite 0, "m", .endTurn, none⟩

/-- Two calls look at the budget before either of them is answered. -/
def events : List (ℕ × CallEvent) :=
  [(0, .check), (1, .check), (0, .answer (.ok response)), (1, .answer (.ok response)),
    (0, .decrement), (1, .decrement)]

theorem outcome : ∃ t, Runs (step next) (start initial) events t ∧
    t.value.completed = [(0, response), (1, response)] := by
  exact ⟨_, runs_iff_final.mpr rfl, rfl⟩

theorem finiteCosts_events : FiniteCosts events := by
  intro k resp hmem
  simp only [events, List.mem_cons, Prod.mk.injEq, CallEvent.answer.injEq, Except.ok.injEq,
    reduceCtorEq, and_false, false_or, List.not_mem_nil, or_false] at hmem
  rcases hmem with ⟨-, rfl⟩ | ⟨-, rfl⟩ <;> rfl

end SampleBudget

theorem bounded_by_budget_iff_sample :
    ∃ t, Runs (step next) (start SampleBudget.initial) SampleBudget.events t ∧
      (BoundedByBudget SampleBudget.initial SampleBudget.events ↔
        F64.le 0 SampleBudget.initial.maxCostUsd = true ∧
          ∀ d, QuietOverrun SampleBudget.initial SampleBudget.events t d) := by
  obtain ⟨t, ht, -⟩ := SampleBudget.outcome
  exact ⟨t, ht, bounded_by_budget_iff ht rfl SampleBudget.finiteCosts_events⟩

/-- Both calls overrun the tokens. -/
theorem overrun_twice :
    ∃ t, Runs (step next) (start SampleBudget.initial) SampleBudget.events t ∧
      t.value.completed = [(0, SampleBudget.response), (1, SampleBudget.response)] ∧
      ¬ BoundedByBudget SampleBudget.initial SampleBudget.events := by
  obtain ⟨t, ht, hcompleted⟩ := SampleBudget.outcome
  refine ⟨t, ht, hcompleted, fun h => ?_⟩
  refine h.once_over t ht .tokens [] (0, SampleBudget.response) [] (1, SampleBudget.response) []
    hcompleted ⟨?_, ?_⟩ ⟨?_, ?_⟩ <;> decide +kernel

end CallBudget

end Aaf
