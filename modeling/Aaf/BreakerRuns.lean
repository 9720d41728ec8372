import Mathlib.Data.List.DropRight
import Aaf.CircuitBreaker

/-!
# Runs of the circuit breakers

What holds of a breaker after any calls in the order of their instants. The failures a
breaker stores are pruned now and then, by some of the calls only; what relates them to
the run is `Tracks`: seen through the window of any later instant, they are the
failures recorded since the breaker last entered `Closed`.

The second half is about the probes of a half-open breaker, which nothing counts.
-/

namespace Aaf

/-! ## One breaker, one operation -/

namespace BreakerInner

variable {b : BreakerInner} {now : ℤ}

/-- What recording a failure comes to. -/
theorem recordFailure_cases (b : BreakerInner) (now : ℤ) (reason : Option String) :
    (b.state = .halfOpen ∧
      b.recordFailure now reason = (true, ((b.prune now).push now).trip now reason)) ∨
    (b.state = .closed ∧
      UInt32.ofNat ((b.prune now).failures.length + 1) ≥ b.config.failureThreshold ∧
      b.recordFailure now reason = (true, ((b.prune now).push now).trip now reason)) ∨
    (b.state = .closed ∧
      ¬ UInt32.ofNat ((b.prune now).failures.length + 1) ≥ b.config.failureThreshold ∧
      b.recordFailure now reason = (false, (b.prune now).push now)) ∨
    (b.state = .opened ∧ b.recordFailure now reason = (false, (b.prune now).push now)) := by
  have hstate : ((b.prune now).push now).state = b.state := rfl
  have hlen : ((b.prune now).push now).failures.length = (b.prune now).failures.length + 1 :=
    List.length_append
  have hconfig : ((b.prune now).push now).config = b.config := rfl
  rw [recordFailure, hstate, hlen, hconfig]
  rcases hb : b.state with _ | _ | _
  · by_cases hfull :
        UInt32.ofNat ((b.prune now).failures.length + 1) ≥ b.config.failureThreshold
    · refine Or.inr (Or.inl ⟨rfl, hfull, ?_⟩)
      rw [if_neg (by decide), if_pos ⟨hfull, rfl⟩]
    · refine Or.inr (Or.inr (Or.inl ⟨rfl, hfull, ?_⟩))
      rw [if_neg (by decide), if_neg fun h => hfull h.1]
  · refine Or.inr (Or.inr (Or.inr ⟨rfl, ?_⟩))
    rw [if_neg (by decide), if_neg fun h => BreakerState.noConfusion h.2]
  · exact Or.inl ⟨rfl, if_pos rfl⟩

/-- Evaluating the cooldown changes the state from `Open` to `HalfOpen` only. -/
theorem effectiveState_cases (b : BreakerInner) (now : ℤ) :
    (b.Cooled now ∧ b.effectiveState now = { b with state := .halfOpen }) ∨
      (¬ b.Cooled now ∧ b.effectiveState now = b) := by
  rw [effectiveState]
  by_cases hcool : b.Cooled now
  · exact Or.inl ⟨hcool, if_pos hcool⟩
  · exact Or.inr ⟨hcool, if_neg hcool⟩

theorem recordSuccess_cases (b : BreakerInner) (now : ℤ) :
    (b.state = .halfOpen ∧ b.recordSuccess now = (b.prune now).reset) ∨
      (b.state ≠ .halfOpen ∧ b.recordSuccess now = b.prune now) := by
  rw [recordSuccess]
  by_cases hhalf : b.state = .halfOpen
  · exact Or.inl ⟨hhalf, if_pos hhalf⟩
  · exact Or.inr ⟨hhalf, if_neg hhalf⟩

/-- **Well-formed breakers.** A closed breaker has no opening and room for a failure; the
others know when they were opened. -/
structure WellFormed (b : BreakerInner) : Prop where
  closed : b.state = .closed →
    b.openedAt = none ∧ b.reason = none ∧
      b.failures.length < max b.config.failureThreshold.toNat 1
  opened : b.state ≠ .closed → ∃ opened, b.openedAt = some opened

theorem wellFormed_new (level : BreakerLevel) (config : BreakerConfig) :
    (new level config).WellFormed where
  closed _ := ⟨rfl, rfl, lt_of_lt_of_le Nat.zero_lt_one (le_max_right _ _)⟩
  opened h := absurd rfl h

theorem wellFormed_trip (b : BreakerInner) (now : ℤ) (reason : Option String) :
    (b.trip now reason).WellFormed where
  closed h := by cases h
  opened _ := ⟨now, rfl⟩

theorem wellFormed_reset (b : BreakerInner) : b.reset.WellFormed where
  closed _ := ⟨rfl, rfl, lt_of_lt_of_le Nat.zero_lt_one (le_max_right _ _)⟩
  opened h := absurd rfl h

theorem WellFormed.prune (h : b.WellFormed) (now : ℤ) : (b.prune now).WellFormed where
  closed hclosed := by
    obtain ⟨hopened, hreason, hroom⟩ := h.closed hclosed
    exact ⟨hopened, hreason, lt_of_le_of_lt (List.length_filter_le _ _) hroom⟩
  opened hstate := h.opened hstate

theorem WellFormed.effectiveState (h : b.WellFormed) (now : ℤ) :
    (b.effectiveState now).WellFormed := by
  rcases effectiveState_cases b now with ⟨hcool, heq⟩ | ⟨-, heq⟩
  · rw [heq]
    refine ⟨fun hclosed => ?_, fun _ => ?_⟩
    · cases hclosed
    · obtain ⟨-, opened, hopened, -⟩ := hcool
      exact ⟨opened, hopened⟩
  · rw [heq]
    exact h

/-- A closed breaker has stored less failures than fit in the counter. -/
theorem WellFormed.toNat_count (h : b.WellFormed) (hclosed : b.state = .closed) (now : ℤ) :
    (UInt32.ofNat ((b.prune now).failures.length + 1)).toNat =
      (b.prune now).failures.length + 1 := by
  obtain ⟨-, -, hroom⟩ := (h.prune now).closed hclosed
  have hthreshold : b.config.failureThreshold.toNat < UInt32.size :=
    b.config.failureThreshold.toNat_lt_size
  refine UInt32.toNat_ofNat_of_lt' ?_
  have hpruned : (b.prune now).config = b.config := rfl
  rw [hpruned] at hroom
  have hsize : UInt32.size = 4294967296 := rfl
  omega

theorem WellFormed.recordFailure (h : b.WellFormed) (now : ℤ) (reason : Option String) :
    (b.recordFailure now reason).2.WellFormed := by
  rcases recordFailure_cases b now reason with
    ⟨-, heq⟩ | ⟨-, -, heq⟩ | ⟨hclosed, hfew, heq⟩ | ⟨hopened, heq⟩
  · rw [heq]
    exact wellFormed_trip ..
  · rw [heq]
    exact wellFormed_trip ..
  · rw [heq]
    obtain ⟨hnone, hreason, -⟩ := h.closed hclosed
    refine ⟨fun _ => ⟨hnone, hreason, ?_⟩, fun hne => absurd hclosed hne⟩
    -- the failure did not trip the breaker, so there is still room
    rw [ge_iff_le, UInt32.le_iff_toNat_le, h.toNat_count hclosed] at hfew
    have hlen : ((b.prune now).push now).failures.length = (b.prune now).failures.length + 1 :=
      List.length_append
    have hconfig : ((b.prune now).push now).config = b.config := rfl
    rw [hlen, hconfig]
    omega
  · rw [heq]
    refine ⟨fun hclosed => ?_, fun hne => h.opened hne⟩
    have hstate : ((b.prune now).push now).state = b.state := rfl
    rw [hstate, hopened] at hclosed
    cases hclosed

theorem WellFormed.recordSuccess (h : b.WellFormed) (now : ℤ) :
    (b.recordSuccess now).WellFormed := by
  rcases recordSuccess_cases b now with ⟨-, heq⟩ | ⟨-, heq⟩
  · rw [heq]
    exact wellFormed_reset _
  · rw [heq]
    exact h.prune now

/-- Every operation keeps a breaker well formed. -/
theorem WellFormed.did (h : b.WellFormed) (now : ℤ) (op : Option BreakerOp) :
    (b.did now op).WellFormed := by
  rcases op with _ | op
  · exact h
  · cases op with
    | recordFailure reason => exact h.recordFailure now reason
    | recordSuccess => exact h.recordSuccess now
    | allows => exact h.effectiveState now
    | snapshot => exact h.effectiveState now
    | forceOpen reason => exact wellFormed_trip ..
    | forceClose => exact wellFormed_reset b

theorem did_config (b : BreakerInner) (now : ℤ) (op : Option BreakerOp) :
    (b.did now op).config = b.config := by
  rcases op with _ | op
  · rfl
  · cases op with
    | recordFailure reason =>
      rw [did]
      rcases recordFailure_cases b now reason with
        ⟨-, heq⟩ | ⟨-, -, heq⟩ | ⟨-, -, heq⟩ | ⟨-, heq⟩ <;> rw [heq] <;> rfl
    | recordSuccess =>
      rw [did]
      rcases recordSuccess_cases b now with ⟨-, heq⟩ | ⟨-, heq⟩ <;> rw [heq] <;> rfl
    | allows =>
      rw [did]
      rcases effectiveState_cases b now with ⟨-, heq⟩ | ⟨-, heq⟩ <;> rw [heq]
    | snapshot =>
      rw [did]
      rcases effectiveState_cases b now with ⟨-, heq⟩ | ⟨-, heq⟩ <;> rw [heq]
    | forceOpen reason => rfl
    | forceClose => rfl

/-- The ways in which an operation changes the state of a breaker. -/
inductive Transition (b : BreakerInner) (now : ℤ) (op : Option BreakerOp) : BreakerState → Prop
  | forcedOpen (reason : String) (h : op = some (.forceOpen reason)) : Transition b now op .opened
  | forcedClosed (h : op = some .forceClose) : Transition b now op .closed
  /-- `Closed → Open` -/
  | tripped (reason : Option String) (h : op = some (.recordFailure reason))
      (hstate : b.state = .closed) : Transition b now op .opened
  /-- `Open → HalfOpen`, once the cooldown has elapsed -/
  | cooled (h : b.Cooled now) : Transition b now op .halfOpen
  /-- `HalfOpen → Closed` -/
  | recovered (h : op = some .recordSuccess) (hstate : b.state = .halfOpen) :
      Transition b now op .closed
  /-- `HalfOpen → Open` -/
  | failedProbe (reason : Option String) (h : op = some (.recordFailure reason))
      (hstate : b.state = .halfOpen) : Transition b now op .opened

theorem did_transition (b : BreakerInner) (now : ℤ) (op : Option BreakerOp)
    (hmoved : (b.did now op).state ≠ b.state) : b.Transition now op (b.did now op).state := by
  rcases op with _ | op
  · exact absurd rfl hmoved
  · cases op with
    | recordFailure reason =>
      rw [did] at hmoved ⊢
      rcases recordFailure_cases b now reason with
        ⟨hhalf, heq⟩ | ⟨hclosed, -, heq⟩ | ⟨-, -, heq⟩ | ⟨-, heq⟩
      · rw [heq]
        exact .failedProbe reason rfl hhalf
      · rw [heq]
        exact .tripped reason rfl hclosed
      · rw [heq] at hmoved
        exact absurd rfl hmoved
      · rw [heq] at hmoved
        exact absurd rfl hmoved
    | recordSuccess =>
      rw [did] at hmoved ⊢
      rcases recordSuccess_cases b now with ⟨hhalf, heq⟩ | ⟨-, heq⟩
      · rw [heq]
        exact .recovered rfl hhalf
      · rw [heq] at hmoved
        exact absurd rfl hmoved
    | allows =>
      rw [did] at hmoved ⊢
      rcases effectiveState_cases b now with ⟨hcool, heq⟩ | ⟨-, heq⟩
      · rw [heq]
        exact .cooled hcool
      · rw [heq] at hmoved
        exact absurd rfl hmoved
    | snapshot =>
      rw [did] at hmoved ⊢
      rcases effectiveState_cases b now with ⟨hcool, heq⟩ | ⟨-, heq⟩
      · rw [heq]
        exact .cooled hcool
      · rw [heq] at hmoved
        exact absurd rfl hmoved
    | forceOpen reason => exact .forcedOpen reason rfl
    | forceClose => exact .forcedClosed rfl

end BreakerInner

/-! ## Failures since the breaker last entered `Closed` -/

namespace CircuitBreakerRegistry

/-- One call of a history. -/
abbrev BreakerStep : Type := Machine.Step CircuitBreakerRegistry BreakerEvent BreakerReply

/-- The state of the breaker of `key`, when there is one. -/
def stateOf (r : CircuitBreakerRegistry) (key : String) : Option BreakerState :=
  (r.lookup key).map BreakerInner.state

/-- The call puts the breaker of `key` in `Closed`: it makes it, recovers it, or forces
it there from whatever state it is in. -/
def EntersClosed (key : String) (st : BreakerStep) : Prop :=
  st.after.stateOf key = some .closed ∧
    (st.before.stateOf key ≠ some .closed ∨ st.call.call.asks key = some .forceClose)

instance (key : String) (st : BreakerStep) : Decidable (EntersClosed key st) :=
  inferInstanceAs (Decidable (_ ∧ (_ ∨ _)))

/-- The instant of the failure a call records on `key`, if it records one. -/
def failureAt (key : String) (st : BreakerStep) : Option ℤ :=
  match st.call.call.asks key with
  | some (.recordFailure _) => some st.call.now
  | _ => none

/-- The instants of the failures recorded on `key` since its breaker last entered
`Closed`. -/
def failuresSinceClosed (key : String) (steps : List BreakerStep) : List ℤ :=
  (steps.rtakeWhile fun st => decide (¬ EntersClosed key st)).filterMap (failureAt key)

theorem failuresSinceClosed_concat (key : String) (steps : List BreakerStep) (st : BreakerStep) :
    failuresSinceClosed key (steps ++ [st]) =
      if EntersClosed key st then []
      else failuresSinceClosed key steps ++ (failureAt key st).toList := by
  rw [failuresSinceClosed, List.rtakeWhile_concat]
  by_cases henters : EntersClosed key st
  · rw [if_pos henters, if_neg (by simpa using henters)]
    rfl
  · rw [if_neg henters, if_pos (by simpa using henters), List.filterMap_append]
    rcases hfailure : failureAt key st with _ | t
    · simp [failuresSinceClosed, hfailure]
    · simp [failuresSinceClosed, hfailure]

/-- What a breaker has stored, seen through the window of an instant. -/
def inWindow (config : BreakerConfig) (now : ℤ) (failures : List ℤ) : List ℤ :=
  failures.filter fun t => decide (now - config.window < t)

theorem inWindow_append (config : BreakerConfig) (now : ℤ) (l l' : List ℤ) :
    inWindow config now (l ++ l') = inWindow config now l ++ inWindow config now l' :=
  List.filter_append ..

/-- The breaker enters `Closed` by an operation. -/
def Resets (b : BreakerInner) (now : ℤ) (op : Option BreakerOp) : Prop :=
  (b.did now op).state = .closed ∧ (b.state ≠ .closed ∨ op = some .forceClose)

/-- The failure an operation records. -/
def failureOf (now : ℤ) : Option BreakerOp → List ℤ
  | some (.recordFailure _) => [now]
  | _ => []

/-- The operation prunes the failures. -/
def Prunes (op : Option BreakerOp) : Prop :=
  op = some .recordSuccess ∨ ∃ reason, op = some (.recordFailure reason)

instance (op : Option BreakerOp) : Decidable (Prunes op) :=
  match op with
  | some .recordSuccess => isTrue (Or.inl rfl)
  | some (.recordFailure reason) => isTrue (Or.inr ⟨reason, rfl⟩)
  | none => isFalse (by simp [Prunes])
  | some .allows => isFalse (by simp [Prunes])
  | some .snapshot => isFalse (by simp [Prunes])
  | some (.forceOpen _) => isFalse (by simp [Prunes])
  | some .forceClose => isFalse (by simp [Prunes])

/-- What an operation at `now` leaves of the failures it finds. -/
def leftBy (window now : ℤ) (op : Option BreakerOp) (failures : List ℤ) : List ℤ :=
  failures.filter fun t => decide (¬ (Prunes op ∧ t + window ≤ now))

theorem leftBy_of_not_prunes {op : Option BreakerOp} (h : ¬ Prunes op) (window now : ℤ)
    (failures : List ℤ) : leftBy window now op failures = failures :=
  List.filter_eq_self.mpr fun _ _ => decide_eq_true fun hpruned => h hpruned.1

theorem leftBy_of_prunes {op : Option BreakerOp} (h : Prunes op) (b : BreakerInner) (now : ℤ) :
    leftBy b.config.window now op b.failures = (b.prune now).failures := by
  refine List.filter_congr fun t _ => ?_
  rw [decide_eq_decide]
  have hiff : Prunes op ∧ t + b.config.window ≤ now ↔ t + b.config.window ≤ now := and_iff_right h
  rw [hiff]
  omega

/-- Looking at a breaker leaves its failures alone. -/
theorem failures_effective (b : BreakerInner) (now : ℤ) {op : BreakerOp}
    (hop : op = .allows ∨ op = .snapshot) :
    ¬ Resets b now (some op) ∧ (b.did now (some op)).failures =
      leftBy b.config.window now (some op) b.failures ++ failureOf now (some op) := by
  have hdid : b.did now (some op) = b.effectiveState now := by
    rcases hop with rfl | rfl <;> rfl
  have hfailure : failureOf now (some op) = [] := by
    rcases hop with rfl | rfl <;> rfl
  have hforce : some op ≠ some BreakerOp.forceClose := by
    rcases hop with rfl | rfl <;> decide
  have hprunes : ¬ Prunes (some op) := by
    rcases hop with rfl | rfl <;> decide
  rw [Resets, hdid, hfailure, leftBy_of_not_prunes hprunes, List.append_nil]
  rcases BreakerInner.effectiveState_cases b now with ⟨-, heq⟩ | ⟨-, heq⟩
  · rw [heq]
    refine ⟨?_, rfl⟩
    rintro ⟨hclosed, -⟩
    cases hclosed
  · rw [heq]
    refine ⟨?_, rfl⟩
    rintro ⟨hclosed, hne | heq⟩
    · exact hne hclosed
    · exact hforce heq

/-- A failure does not bring a breaker to `Closed`. -/
theorem not_resets_recordFailure (b : BreakerInner) (now : ℤ) (reason : Option String) :
    ¬ Resets b now (some (.recordFailure reason)) := by
  rintro ⟨hclosed, hne | hforce⟩
  · rw [BreakerInner.did] at hclosed
    rcases BreakerInner.recordFailure_cases b now reason with
      ⟨-, heq⟩ | ⟨-, -, heq⟩ | ⟨hb, -, -⟩ | ⟨hb, heq⟩
    · rw [heq] at hclosed
      cases hclosed
    · rw [heq] at hclosed
      cases hclosed
    · exact hne hb
    · rw [heq] at hclosed
      exact hne hclosed
  · cases hforce

theorem failures_recordFailure (b : BreakerInner) (now : ℤ) (reason : Option String) :
    (b.did now (some (.recordFailure reason))).failures = (b.prune now).failures ++ [now] := by
  rw [BreakerInner.did]
  rcases BreakerInner.recordFailure_cases b now reason with
    ⟨-, heq⟩ | ⟨-, -, heq⟩ | ⟨-, -, heq⟩ | ⟨-, heq⟩ <;> rw [heq] <;> rfl

/-- A success closes a half-open breaker, and only prunes any other. -/
theorem resets_recordSuccess (b : BreakerInner) (now : ℤ) :
    (Resets b now (some .recordSuccess) ∧ (b.did now (some .recordSuccess)).failures = []) ∨
      (¬ Resets b now (some .recordSuccess) ∧ b.did now (some .recordSuccess) = b.prune now) := by
  have hdid : b.did now (some .recordSuccess) = b.recordSuccess now := rfl
  rw [Resets, hdid]
  rcases BreakerInner.recordSuccess_cases b now with ⟨hhalf, heq⟩ | ⟨hnot, heq⟩
  · rw [heq, hhalf]
    refine Or.inl ⟨⟨rfl, Or.inl ?_⟩, rfl⟩
    decide
  · rw [heq]
    refine Or.inr ⟨?_, rfl⟩
    rintro ⟨hclosed, hne | hforce⟩
    · exact hne hclosed
    · cases hforce

/-- A breaker that enters `Closed` has stored nothing; otherwise an operation adds the
failure it records to what it leaves of the others. -/
theorem failures_did (b : BreakerInner) (now : ℤ) (op : Option BreakerOp) :
    (Resets b now op ∧ (b.did now op).failures = []) ∨
      (¬ Resets b now op ∧
        (b.did now op).failures = leftBy b.config.window now op b.failures ++ failureOf now op) := by
  rcases op with _ | op
  · refine Or.inr ⟨fun h => ?_, ?_⟩
    · rcases h.2 with hne | hforce
      · exact hne h.1
      · cases hforce
    · rw [leftBy_of_not_prunes (by decide)]
      exact (List.append_nil _).symm
  · cases op with
    | recordFailure reason =>
      refine Or.inr ⟨not_resets_recordFailure b now reason, ?_⟩
      rw [failures_recordFailure, leftBy_of_prunes (Or.inr ⟨reason, rfl⟩)]
      rfl
    | recordSuccess =>
      rcases resets_recordSuccess b now with hreset | ⟨hnot, heq⟩
      · exact Or.inl hreset
      · refine Or.inr ⟨hnot, ?_⟩
        rw [heq, leftBy_of_prunes (Or.inl rfl)]
        exact (List.append_nil _).symm
    | allows => exact Or.inr (failures_effective b now (Or.inl rfl))
    | snapshot => exact Or.inr (failures_effective b now (Or.inr rfl))
    | forceOpen reason =>
      refine Or.inr ⟨?_, ?_⟩
      · rintro ⟨hclosed, -⟩
        cases hclosed
      · rw [leftBy_of_not_prunes (by simp [Prunes])]
        exact (List.append_nil _).symm
    | forceClose => exact Or.inl ⟨⟨rfl, Or.inr rfl⟩, rfl⟩

/-- Nothing that an operation drops is in a later window. -/
theorem inWindow_leftBy {config : BreakerConfig} {now later : ℤ} (h : now ≤ later)
    (op : Option BreakerOp) (l : List ℤ) :
    inWindow config later (leftBy config.window now op l) = inWindow config later l := by
  rw [inWindow, leftBy, inWindow, List.filter_filter]
  refine List.filter_congr fun t _ => ?_
  rw [Bool.and_eq_left_iff_imp]
  intro hlater
  have hlt := of_decide_eq_true hlater
  refine decide_eq_true ?_
  rintro ⟨-, hold⟩
  omega

/-- As far as any later window shows, an operation adds the failure it records. -/
theorem inWindow_did (b : BreakerInner) {now later : ℤ} (hlater : now ≤ later)
    (op : Option BreakerOp) :
    (Resets b now op ∧ (b.did now op).failures = []) ∨
      (¬ Resets b now op ∧ inWindow b.config later (b.did now op).failures =
        inWindow b.config later b.failures ++ inWindow b.config later (failureOf now op)) := by
  rcases failures_did b now op with hreset | ⟨hnot, heq⟩
  · exact Or.inl hreset
  · refine Or.inr ⟨hnot, ?_⟩
    rw [heq, inWindow_append, inWindow_leftBy hlater]

theorem entersClosed_stepAt {r : CircuitBreakerRegistry} {key : String} {b : BreakerInner}
    (h : r.lookup key = some b) (e : BreakerEvent) :
    EntersClosed key (Machine.stepAt exec r e) ↔ Resets b e.now (e.call.asks key) := by
  rw [EntersClosed, Resets, Machine.stepAt, stateOf, stateOf, lookup_exec e h, h]
  simp

theorem failureAt_stepAt (r : CircuitBreakerRegistry) (key : String) (e : BreakerEvent) :
    (failureAt key (Machine.stepAt exec r e)).toList = failureOf e.now (e.call.asks key) := by
  have hcall : (Machine.stepAt exec r e).call = e := rfl
  rw [failureAt, hcall]
  rcases e.call.asks key with _ | op
  · rfl
  · cases op <;> rfl

/-! ## The invariant of a run -/

/-- **The sliding window.** Seen from any later instant, a breaker has stored the
failures recorded since it last entered `Closed`. -/
def Tracks (key : String) (events : List BreakerEvent) (b : BreakerInner) : Prop :=
  ∀ later, (∀ e ∈ events, e.now ≤ later) →
    inWindow b.config later b.failures =
      inWindow b.config later (failuresSinceClosed key (history events))

theorem after_concat (events : List BreakerEvent) (e : BreakerEvent) :
    after (events ++ [e]) = ((after events).exec e).2 :=
  Machine.run_concat new events e

theorem history_concat (events : List BreakerEvent) (e : BreakerEvent) :
    history (events ++ [e]) = history events ++ [Machine.stepAt exec (after events) e] :=
  Machine.trace_concat new events e

/-- A call takes the breaker of a key where it was, or makes it. -/
theorem lookup_after_concat {events : List BreakerEvent} {e : BreakerEvent} {key : String}
    {b : BreakerInner} (h : (after (events ++ [e])).lookup key = some b) :
    (∃ b₀, (after events).lookup key = some b₀ ∧ b = b₀.did e.now (e.call.asks key)) ∨
      ((after events).lookup key = none ∧ ∃ level config, b = BreakerInner.new level config) := by
  rw [after_concat] at h
  rcases hbefore : (after events).lookup key with _ | b₀
  · refine Or.inr ⟨rfl, ?_⟩
    rcases lookup_exec_of_none hbefore with hnone | ⟨level, config, -, hnew⟩
    · rw [hnone] at h
      cases h
    · rw [hnew] at h
      exact ⟨level, config, (Option.some.inj h).symm⟩
  · refine Or.inl ⟨b₀, rfl, ?_⟩
    rw [lookup_exec e hbefore] at h
    exact (Option.some.inj h).symm

theorem wellFormed_after (key : String) (events : List BreakerEvent) :
    ∀ {b : BreakerInner}, (after events).lookup key = some b → b.WellFormed := by
  induction events using List.reverseRecOn with
  | nil =>
    intro b h
    cases h
  | append_singleton events e ih =>
    intro b h
    rcases lookup_after_concat h with ⟨b₀, hb₀, rfl⟩ | ⟨-, level, config, rfl⟩
    · exact (ih hb₀).did e.now _
    · exact BreakerInner.wellFormed_new level config

/-- A breaker that was not there before is made closed. -/
theorem entersClosed_of_new {key : String} {events : List BreakerEvent} {e : BreakerEvent}
    {level : BreakerLevel} {config : BreakerConfig} (hnone : (after events).lookup key = none)
    (h : (after (events ++ [e])).lookup key = some (BreakerInner.new level config)) :
    EntersClosed key (Machine.stepAt exec (after events) e) := by
  refine ⟨?_, Or.inl ?_⟩
  · change (((after events).exec e).2).stateOf key = _
    rw [← after_concat, stateOf, h]
    rfl
  · change (after events).stateOf key ≠ _
    rw [stateOf, hnone]
    decide

theorem tracks_after (key : String) (events : List BreakerEvent) :
    ∀ {b : BreakerInner}, Timed events → (after events).lookup key = some b →
      Tracks key events b := by
  induction events using List.reverseRecOn with
  | nil =>
    intro b _ h
    cases h
  | append_singleton events e ih =>
    intro b htimed h later hlater
    obtain ⟨htimed', -, hlast⟩ := List.pairwise_append.mp htimed
    have hnow : e.now ≤ later := hlater e (by simp)
    rw [history_concat, failuresSinceClosed_concat]
    rcases lookup_after_concat h with ⟨b₀, hb₀, rfl⟩ | ⟨hnone, level, config, rfl⟩
    · rw [BreakerInner.did_config]
      rcases inWindow_did b₀ hnow (e.call.asks key) with ⟨hresets, hempty⟩ | ⟨hnot, hgrows⟩
      · rw [if_pos ((entersClosed_stepAt hb₀ e).mpr hresets), hempty]
      · rw [if_neg fun henters => hnot ((entersClosed_stepAt hb₀ e).mp henters), hgrows,
          failureAt_stepAt, inWindow_append]
        have hold : ∀ e' ∈ events, e'.now ≤ later := fun e' he' =>
          hlater e' (List.mem_append_left _ he')
        rw [ih htimed' hb₀ later hold]
    · rw [if_pos (entersClosed_of_new hnone h)]
      rfl

theorem le_of_mem_failuresSinceClosed {key : String} {events : List BreakerEvent} {t later : ℤ}
    (hlater : ∀ e ∈ events, e.now ≤ later)
    (h : t ∈ failuresSinceClosed key (history events)) : t ≤ later := by
  obtain ⟨st, hst, hfailure⟩ := List.mem_filterMap.mp h
  have hmem : st ∈ history events := (List.rtakeWhile_suffix _ _).subset hst
  have hcall : st.call ∈ events := by
    have hmap := List.mem_map_of_mem (f := Machine.Step.call) hmem
    rwa [history, Machine.trace_map_call] at hmap
  have ht : t = st.call.now := by
    rw [failureAt] at hfailure
    split at hfailure
    · exact (Option.some.inj hfailure).symm
    · cases hfailure
  rw [ht]
  exact hlater _ hcall

/-- A failure on a closed breaker trips it when the window is full. -/
theorem trips_iff {key : String} {events : List BreakerEvent} {b : BreakerInner} {now : ℤ}
    {reason : Option String} (htimed : Timed events) (hnow : ∀ e ∈ events, e.now ≤ now)
    (hb : (after events).lookup key = some b) (hclosed : b.state = .closed) :
    ((after events).exec ⟨now, .on key (.recordFailure reason)⟩).1 = .tripped true ↔
      b.config.failureThreshold.toNat ≤ 1 + (failuresSinceClosed key (history events)).countP
        fun t => decide (now - b.config.window < t ∧ t ≤ now) := by
  have hreply : ((after events).exec ⟨now, .on key (.recordFailure reason)⟩).1 =
      .tripped (b.recordFailure now reason).1 := by
    change BreakerReply.tripped ((after events).recordFailure now key reason).1 = _
    rw [recordFailure, getMut_reply hb]
  have hcount : ((failuresSinceClosed key (history events)).countP
      fun t => decide (now - b.config.window < t ∧ t ≤ now)) =
        (b.prune now).failures.length := by
    have hpruned : (b.prune now).failures = inWindow b.config now b.failures := rfl
    rw [hpruned, tracks_after key events htimed hb now hnow, inWindow,
      ← List.countP_eq_length_filter]
    refine List.countP_congr fun t ht => ?_
    have hle := le_of_mem_failuresSinceClosed hnow ht
    simp [hle]
  have hwell := wellFormed_after key events hb
  rw [hreply, hcount]
  have hfull : UInt32.ofNat ((b.prune now).failures.length + 1) ≥ b.config.failureThreshold ↔
      b.config.failureThreshold.toNat ≤ 1 + (b.prune now).failures.length := by
    rw [ge_iff_le, UInt32.le_iff_toNat_le, hwell.toNat_count hclosed, Nat.add_comm]
  rw [← hfull]
  rcases BreakerInner.recordFailure_cases b now reason with
    ⟨hhalf, -⟩ | ⟨-, hmany, heq⟩ | ⟨-, hfew, heq⟩ | ⟨hopened, -⟩
  · rw [hclosed] at hhalf
    cases hhalf
  · rw [heq]
    exact ⟨fun _ => hmany, fun _ => rfl⟩
  · rw [heq]
    refine ⟨fun h => ?_, fun h => absurd h hfew⟩
    cases h
  · rw [hclosed] at hopened
    cases hopened

/-- **The law of the breakers.** After any calls on any keys in the order of their
instants, a closed breaker has no opening and room for a failure, the others know when
they were opened, a failure on a closed breaker trips it exactly when the window since
it last entered `Closed` is full, and a call changes the state of a breaker in the ways
of `Transition` only. -/
theorem breaker_lawful (events : List BreakerEvent) (htimed : Timed events) (key : String)
    (b : BreakerInner) (hb : (after events).lookup key = some b) :
    (b.state = .closed → b.openedAt = none ∧ b.reason = none ∧
      b.failures.length < max b.config.failureThreshold.toNat 1) ∧
    (b.state = .opened ∨ b.state = .halfOpen → ∃ opened, b.openedAt = some opened) ∧
    (∀ now reason, (∀ e ∈ events, e.now ≤ now) → b.state = .closed →
      (((after events).exec ⟨now, .on key (.recordFailure reason)⟩).1 = .tripped true ↔
        b.config.failureThreshold.toNat ≤ 1 + (failuresSinceClosed key (history events)).countP
          fun t => decide (now - b.config.window < t ∧ t ≤ now))) ∧
    (∀ e b', (∀ e' ∈ events, e'.now ≤ e.now) → ((after events).exec e).2.lookup key = some b' →
      b'.state ≠ b.state → b.Transition e.now (e.call.asks key) b'.state) := by
  have hwell := wellFormed_after key events hb
  refine ⟨hwell.closed, fun hopen => hwell.opened fun hclosed => ?_,
    fun now reason hnow hclosed => trips_iff htimed hnow hb hclosed, fun e b' _ hb' hmoved => ?_⟩
  · rcases hopen with hopen | hopen
    · rw [hclosed] at hopen
      cases hopen
    · rw [hclosed] at hopen
      cases hopen
  · rw [lookup_exec e hb] at hb'
    obtain rfl := Option.some.inj hb'
    exact BreakerInner.did_transition b e.now _ hmoved

/-- Two failures on a threshold of two, within the window. -/
def twoStrikes : List BreakerEvent :=
  [⟨0, .register "pay" .capability ⟨2, 60, 30⟩⟩, ⟨1, .on "pay" (.recordFailure none)⟩]

theorem breaker_lawful_twoStrikes :
    Timed twoStrikes ∧
      (((after twoStrikes).exec ⟨2, .on "pay" (.recordFailure none)⟩).1 = .tripped true ↔
        2 ≤ 1 + (failuresSinceClosed "pay" (history twoStrikes)).countP
          fun t => decide (2 - 60 < t ∧ t ≤ 2)) := by
  have htimed : Timed twoStrikes := by decide
  have hb : (after twoStrikes).lookup "pay" =
      some ⟨.closed, .capability, ⟨2, 60, 30⟩, [1], none, none⟩ := by decide +kernel
  obtain ⟨-, -, htrips, -⟩ := breaker_lawful twoStrikes htimed "pay" _ hb
  exact ⟨htimed, htrips 2 none (by decide) rfl⟩

/-! ## The probes of a half-open breaker -/

end CircuitBreakerRegistry

/-- The operations that settle a half-open breaker: an outcome or an operator. -/
def BreakerOp.settles : BreakerOp → Bool
  | .recordFailure _ | .recordSuccess | .forceOpen _ | .forceClose => true
  | .allows | .snapshot => false

namespace CircuitBreakerRegistry

/-- The call settles the breaker of `key`. -/
def Settles (key : String) (e : BreakerEvent) : Prop :=
  ∃ op, e.call.asks key = some op ∧ op.settles = true

/-- The call makes the breaker of `key` half-open. -/
def EntersHalfOpen (key : String) (st : BreakerStep) : Prop :=
  st.before.stateOf key ≠ some .halfOpen ∧ st.after.stateOf key = some .halfOpen

/-- The call is `allows(key)`, and it returned true. -/
def Admits (key : String) (st : BreakerStep) : Prop :=
  st.call.call = .on key .allows ∧ st.reply = .allowed true

instance (key : String) (st : BreakerStep) : Decidable (Admits key st) :=
  inferInstanceAs (Decidable (_ ∧ _))

/-- The part of a history from the call that makes the breaker of `key` half-open on, as
long as nothing settles it. -/
def HalfOpenPeriod (key : String) (period : List BreakerStep) : Prop :=
  ∃ first rest, period = first :: rest ∧ EntersHalfOpen key first ∧
    ∀ st ∈ rest, ¬ Settles key st.call

/-- **One probe.** In no half-open period does `allows` return true twice. -/
def OneProbe (events : List BreakerEvent) : Prop :=
  ∀ key pre period post, history events = pre ++ period ++ post → HalfOpenPeriod key period →
    (period.countP fun st => decide (Admits key st)) ≤ 1

/-- The call is `allows(key)` on a breaker that is half-open, or open past its
cooldown. -/
def Probes (key : String) (st : BreakerStep) : Prop :=
  st.call.call = .on key .allows ∧
    ∃ b, st.before.lookup key = some b ∧ (b.state = .halfOpen ∨ b.Cooled st.call.now)

/-- **The callers take turns.** After a probe nobody asks again before the breaker was
settled. -/
def TakesTurns (events : List BreakerEvent) : Prop :=
  ∀ key pre probe between next post,
    history events = pre ++ probe :: (between ++ next :: post) → Probes key probe →
      next.call.call = .on key .allows → ∃ st ∈ between, Settles key st.call

theorem stateOf_eq_some {r : CircuitBreakerRegistry} {key : String} {s : BreakerState} :
    r.stateOf key = some s ↔ ∃ b, r.lookup key = some b ∧ b.state = s :=
  Option.map_eq_some_iff

/-- Looking at a half-open breaker leaves it half-open. -/
theorem halfOpen_exec {r : CircuitBreakerRegistry} {key : String} {e : BreakerEvent}
    (h : r.stateOf key = some .halfOpen) (hquiet : ¬ Settles key e) :
    (r.exec e).2.stateOf key = some .halfOpen := by
  obtain ⟨b, hb, hhalf⟩ := stateOf_eq_some.mp h
  refine stateOf_eq_some.mpr ⟨_, lookup_exec e hb, ?_⟩
  rcases hasks : e.call.asks key with _ | op
  · exact hhalf
  · have hlook : (b.effectiveState e.now).state = .halfOpen := by
      rcases b.effectiveState_cases e.now with ⟨-, heq⟩ | ⟨-, heq⟩
      · rw [heq]
      · rw [heq]
        exact hhalf
    cases op with
    | allows => exact hlook
    | snapshot => exact hlook
    | recordFailure reason => exact absurd ⟨_, hasks, rfl⟩ hquiet
    | recordSuccess => exact absurd ⟨_, hasks, rfl⟩ hquiet
    | forceOpen reason => exact absurd ⟨_, hasks, rfl⟩ hquiet
    | forceClose => exact absurd ⟨_, hasks, rfl⟩ hquiet

/-- A settled breaker is not half-open. -/
theorem not_halfOpen_of_settles {r : CircuitBreakerRegistry} {key : String} {e : BreakerEvent}
    (hsettles : Settles key e) : (r.exec e).2.stateOf key ≠ some .halfOpen := by
  intro hhalf
  obtain ⟨op, hasks, hop⟩ := hsettles
  rcases hb : r.lookup key with _ | b
  · rcases lookup_exec_of_none (e := e) hb with hnone | ⟨level, config, hcall, -⟩
    · rw [stateOf, hnone] at hhalf
      cases hhalf
    · rw [hcall] at hasks
      cases hasks
  · rw [stateOf, lookup_exec e hb, hasks] at hhalf
    have hstate : (b.did e.now (some op)).state = .halfOpen := Option.some.inj hhalf
    cases op with
    | allows => cases hop
    | snapshot => cases hop
    | forceOpen reason => cases hstate
    | forceClose => cases hstate
    | recordSuccess =>
      rw [BreakerInner.did] at hstate
      rcases b.recordSuccess_cases e.now with ⟨-, heq⟩ | ⟨hne, heq⟩
      · rw [heq] at hstate
        cases hstate
      · rw [heq] at hstate
        exact hne hstate
    | recordFailure reason =>
      rw [BreakerInner.did] at hstate
      rcases b.recordFailure_cases e.now reason with
        ⟨-, heq⟩ | ⟨-, -, heq⟩ | ⟨hb, -, heq⟩ | ⟨hb, heq⟩
      · rw [heq] at hstate
        cases hstate
      · rw [heq] at hstate
        cases hstate
      · rw [heq] at hstate
        cases hb.symm.trans hstate
      · rw [heq] at hstate
        cases hb.symm.trans hstate

/-- As long as nothing settles it, a half-open breaker stays so. -/
theorem halfOpen_trace {key : String} {r : CircuitBreakerRegistry} {events : List BreakerEvent}
    (h : r.stateOf key = some .halfOpen) (hquiet : ∀ e ∈ events, ¬ Settles key e) :
    (∀ st ∈ Machine.trace exec r events, st.before.stateOf key = some .halfOpen) ∧
      (Machine.run exec r events).stateOf key = some .halfOpen := by
  induction events generalizing r with
  | nil => exact ⟨fun st hst => absurd hst List.not_mem_nil, h⟩
  | cons e events ih =>
    have hnext := halfOpen_exec h (hquiet e List.mem_cons_self)
    obtain ⟨htrace, hrun⟩ := ih hnext fun e' he' => hquiet e' (List.mem_cons_of_mem _ he')
    refine ⟨fun st hst => ?_, hrun⟩
    rcases List.mem_cons.mp hst with rfl | hst
    · exact h
    · exact htrace st hst

/-- `allows` admits whoever comes to a half-open breaker, or to an open one past its
cooldown. -/
theorem admits_of_probes {r : CircuitBreakerRegistry} {key : String} {b : BreakerInner}
    {e : BreakerEvent} (hcall : e.call = .on key .allows) (hb : r.lookup key = some b)
    (h : b.state = .halfOpen ∨ b.Cooled e.now) :
    Admits key (Machine.stepAt exec r e) ∧ (r.exec e).2.stateOf key = some .halfOpen := by
  have hhalf : (b.effectiveState e.now).state = .halfOpen := by
    rcases b.effectiveState_cases e.now with ⟨-, heq⟩ | ⟨hwarm, heq⟩
    · rw [heq]
    · rw [heq]
      exact h.resolve_right hwarm
  refine ⟨⟨hcall, ?_⟩, ?_⟩
  · rw [Machine.stepAt, exec, hcall]
    change BreakerReply.allowed (r.allows e.now key).1 = _
    rw [allows, getMut_reply hb, hhalf]
    rfl
  · refine stateOf_eq_some.mpr ⟨_, lookup_exec e hb, ?_⟩
    rw [hcall, BreakerCall.asks, if_pos rfl]
    exact hhalf

/-- A half-open breaker is in a half-open period. -/
theorem exists_halfOpenPeriod {key : String} (events : List BreakerEvent)
    (h : (after events).stateOf key = some .halfOpen) :
    ∃ pre period, history events = pre ++ period ∧ HalfOpenPeriod key period := by
  induction events using List.reverseRecOn with
  | nil => cases h
  | append_singleton events e ih =>
    rw [history_concat]
    by_cases hbefore : (after events).stateOf key = some .halfOpen
    · obtain ⟨pre, period, hsplit, first, rest, rfl, henters, hquiet⟩ := ih hbefore
      refine ⟨pre, first :: (rest ++ [Machine.stepAt exec (after events) e]), ?_, first, _, rfl,
        henters, fun st hst => ?_⟩
      · rw [hsplit, List.append_assoc]
        rfl
      · rcases List.mem_append.mp hst with hst | hst
        · exact hquiet st hst
        · rw [List.mem_singleton.mp hst]
          intro hsettles
          rw [after_concat] at h
          exact not_halfOpen_of_settles hsettles h
    · refine ⟨history events, [Machine.stepAt exec (after events) e], rfl, _, [], rfl,
        ⟨hbefore, ?_⟩, fun st hst => absurd hst List.not_mem_nil⟩
      rw [after_concat] at h
      exact h

theorem not_settles_allows {key : String} {e : BreakerEvent} (h : e.call = .on key .allows) :
    ¬ Settles key e := by
  rintro ⟨op, hasks, hop⟩
  rw [h, BreakerCall.asks, if_pos rfl] at hasks
  cases hasks
  cases hop

/-- A call of `allows` that makes the breaker half-open finds it past its cooldown. -/
theorem probes_of_entersHalfOpen {r : CircuitBreakerRegistry} {key : String} {e : BreakerEvent}
    (hcall : e.call = .on key .allows) (h : EntersHalfOpen key (Machine.stepAt exec r e)) :
    Probes key (Machine.stepAt exec r e) := by
  obtain ⟨hbefore, hafter⟩ := h
  refine ⟨hcall, ?_⟩
  change (r.exec e).2.stateOf key = _ at hafter
  change r.stateOf key ≠ _ at hbefore
  rcases hb : r.lookup key with _ | b
  · rcases lookup_exec_of_none (e := e) hb with hnone | ⟨level, config, hreg, -⟩
    · rw [stateOf, hnone] at hafter
      cases hafter
    · rw [hcall] at hreg
      cases hreg
  · refine ⟨b, hb, Or.inr ?_⟩
    rw [stateOf, lookup_exec e hb, hcall, BreakerCall.asks, if_pos rfl] at hafter
    have hhalf : (b.effectiveState e.now).state = .halfOpen := Option.some.inj hafter
    rcases b.effectiveState_cases e.now with ⟨hcool, -⟩ | ⟨-, heq⟩
    · exact hcool
    · rw [heq] at hhalf
      exact absurd (stateOf_eq_some.mpr ⟨b, hb, hhalf⟩) hbefore

/-- Two of a list, when more than one is counted. -/
theorem exists_two_of_countP {α : Type} {p : α → Bool} {l : List α} (h : 1 < l.countP p) :
    ∃ a x m y c, l = a ++ x :: (m ++ y :: c) ∧ p x = true ∧ p y = true := by
  rw [List.countP_eq_length_filter] at h
  rcases hfilter : l.filter p with _ | ⟨x, _ | ⟨y, found⟩⟩
  · rw [hfilter] at h
    cases h
  · rw [hfilter] at h
    exact absurd h (lt_irrefl 1)
  · obtain ⟨a, rest, rfl, -, hx, hrest⟩ := List.filter_eq_cons_iff.mp hfilter
    obtain ⟨m, c, rfl, -, hy, -⟩ := List.filter_eq_cons_iff.mp hrest
    exact ⟨a, x, m, y, c, rfl, hx, hy⟩

theorem TakesTurns.oneProbe {events : List BreakerEvent} (h : TakesTurns events) :
    OneProbe events := by
  intro key pre period post hsplit hperiod
  obtain ⟨first, rest, rfl, henters, hquiet⟩ := hperiod
  by_contra hmany
  obtain ⟨a, x, m, y, c, hxy, hx, hy⟩ := exists_two_of_countP (not_le.mp hmany)
  have hxallows : x.call.call = .on key .allows := (of_decide_eq_true hx : Admits key x).1
  have hyallows : y.call.call = .on key .allows := (of_decide_eq_true hy : Admits key y).1
  rw [List.append_assoc] at hsplit
  obtain ⟨before, later, -, -, hfirst, hrest⟩ := Machine.trace_eq_append_cons hsplit
  obtain ⟨calls, -, -, hcalls, -⟩ := Machine.trace_eq_append hrest.symm
  -- the first of the two is a probe: it opened the period, or it came within it
  have hprobes : Probes key x := by
    rcases a with _ | ⟨first', a⟩
    · obtain ⟨rfl, -⟩ := List.cons.inj hxy
      rw [hfirst] at henters ⊢
      exact probes_of_entersHalfOpen hxallows henters
    · obtain ⟨-, hrest'⟩ := List.cons.inj hxy
      have hxmem : x ∈ rest := by
        rw [hrest']
        simp
      rw [hcalls] at hxmem hquiet
      have hhalf := (halfOpen_trace henters.2 (Machine.forall_calls hquiet)).1 x hxmem
      obtain ⟨b, hb, hstate⟩ := stateOf_eq_some.mp hhalf
      exact ⟨hxallows, b, hb, Or.inl hstate⟩
  have hwhole : history events = (pre ++ a) ++ x :: (m ++ y :: (c ++ post)) := by
    rw [hsplit, hxy]
    simp
  obtain ⟨st, hst, hsettles⟩ := h key _ x m y _ hwhole hprobes hyallows
  -- what came between them is part of the period, which nothing settles
  have hmem : st ∈ rest := by
    rcases a with _ | ⟨first', a⟩
    · obtain ⟨-, rfl⟩ := List.cons.inj hxy
      exact List.mem_append_left _ hst
    · obtain ⟨-, rfl⟩ := List.cons.inj hxy
      simp [hst]
  exact hquiet st hmem hsettles

/-- A period goes on as long as nothing settles the breaker. -/
theorem HalfOpenPeriod.append {key : String} {period more : List BreakerStep}
    (h : HalfOpenPeriod key period) (hquiet : ∀ st ∈ more, ¬ Settles key st.call) :
    HalfOpenPeriod key (period ++ more) := by
  obtain ⟨first, rest, rfl, henters, hrest⟩ := h
  refine ⟨first, rest ++ more, rfl, henters, fun st hst => ?_⟩
  rcases List.mem_append.mp hst with hst | hst
  · exact hrest st hst
  · exact hquiet st hst

theorem HalfOpenPeriod.mem_of_concat {key : String} {pre pre' period : List BreakerStep}
    {st : BreakerStep} (h : HalfOpenPeriod key period) (hsplit : pre ++ [st] = pre' ++ period) :
    st ∈ period := by
  obtain ⟨first, rest, rfl, -, -⟩ := h
  obtain ⟨body, last, hbody⟩ := (List.eq_nil_or_concat (first :: rest)).resolve_left
    (List.cons_ne_nil _ _)
  rw [List.concat_eq_append] at hbody
  rw [hbody, ← List.append_assoc] at hsplit
  obtain ⟨-, hsame⟩ := List.append_inj' hsplit rfl
  rw [hbody, (List.cons.inj hsame).1]
  simp

theorem OneProbe.takesTurns {events : List BreakerEvent} (h : OneProbe events) :
    TakesTurns events := by
  intro key pre probe between next post hsplit hprobe hnext
  by_contra hnone
  have hquiet : ∀ st ∈ between, ¬ Settles key st.call := fun st hst hsettles =>
    hnone ⟨st, hst, hsettles⟩
  obtain ⟨before, later, -, hpre, hstep, hrest⟩ := Machine.trace_eq_append_cons hsplit
  obtain ⟨calls, -, -, hcalls, hnextStep, -⟩ := Machine.trace_eq_append_cons hrest.symm
  obtain ⟨hallows, b, hb, hready⟩ := hprobe
  have hbefore : probe.before = Machine.run exec new before := congrArg Machine.Step.before hstep
  obtain ⟨hadmits, hhalf⟩ := admits_of_probes hallows hb hready
  rw [hbefore] at hadmits hhalf
  rw [← hstep] at hadmits
  -- the breaker is half-open from the probe to the next call, which it admits too
  have hafter : probe.after.stateOf key = some .halfOpen := by
    rw [hstep]
    exact hhalf
  have hcallsQuiet : ∀ e ∈ calls, ¬ Settles key e := by
    rw [hcalls] at hquiet
    exact Machine.forall_calls hquiet
  obtain ⟨b', hb', hhalf'⟩ := stateOf_eq_some.mp (halfOpen_trace hafter hcallsQuiet).2
  obtain ⟨hadmits', -⟩ := admits_of_probes hnext hb' (Or.inl hhalf')
  rw [← hnextStep] at hadmits'
  -- the period the probe is in reaches to the next call
  have hprobed : history (before ++ [probe.call]) = pre ++ [probe] := by
    rw [history_concat, hpre, history, after, ← hstep]
  have hopen : (after (before ++ [probe.call])).stateOf key = some .halfOpen := by
    rw [after_concat]
    exact hhalf
  obtain ⟨pre₀, period, hcut, hperiod⟩ := exists_halfOpenPeriod (before ++ [probe.call]) hopen
  rw [hprobed] at hcut
  have hlong : HalfOpenPeriod key (period ++ (between ++ [next])) := by
    refine hperiod.append fun st hst => ?_
    rcases List.mem_append.mp hst with hst | hst
    · exact hquiet st hst
    · rw [List.mem_singleton.mp hst]
      exact not_settles_allows hnext
  have hwhole : history events = pre₀ ++ (period ++ (between ++ [next])) ++ post := by
    rw [hsplit, ← List.singleton_append, ← List.append_assoc, hcut]
    simp
  -- and it admits both of them
  have hone : 0 < period.countP fun st => decide (Admits key st) :=
    List.countP_pos_iff.mpr ⟨probe, hperiod.mem_of_concat hcut, decide_eq_true hadmits⟩
  have htwo : ([next].countP fun st => decide (Admits key st)) = 1 := by
    simp [hadmits']
  have hle := h key pre₀ _ post hwhole hlong
  rw [List.countP_append, List.countP_append, htwo] at hle
  omega

/-- **Probes.** A half-open breaker admits at most one request in every period exactly
when the callers take turns: nothing in the breaker holds the second one back. -/
theorem oneProbe_iff (events : List BreakerEvent) : OneProbe events ↔ TakesTurns events :=
  ⟨OneProbe.takesTurns, TakesTurns.oneProbe⟩

/-- Two callers come to a breaker after its cooldown. -/
def twoProbes : List BreakerEvent :=
  [⟨0, .register "pay" .capability ⟨1, 60, 30⟩⟩, ⟨1, .on "pay" (.recordFailure none)⟩,
    ⟨31, .on "pay" .allows⟩, ⟨31, .on "pay" .allows⟩]

theorem twoProbes_not_oneProbe : Timed twoProbes ∧ ¬ OneProbe twoProbes := by
  refine ⟨by decide, fun h => ?_⟩
  have hsplit : history twoProbes =
      (history twoProbes).take 2 ++ (history twoProbes).drop 2 ++ [] := by simp
  have hperiod : HalfOpenPeriod "pay" ((history twoProbes).drop 2) := by
    refine ⟨(history twoProbes).get ⟨2, by decide⟩, [(history twoProbes).get ⟨3, by decide⟩],
      rfl, ⟨by decide +kernel, by decide +kernel⟩, fun st hst => ?_⟩
    rw [List.mem_singleton.mp hst]
    exact not_settles_allows rfl
  have hle := h "pay" _ _ _ hsplit hperiod
  revert hle
  decide +kernel

end CircuitBreakerRegistry

end Aaf
