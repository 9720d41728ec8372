import Aaf.Machine
import Aaf.Recorder

/-!
# Histories of a recorder

Any sequence of `open`, `record_step` and `close` on a `Recorder`, with any trace ids.

A call changes what `get` sees of one trace at most: `written` is that trace, and `get_exec`
says so. Only `record_step` looks whether the trace is closed. `open` puts an empty trace in
the place of any other, and `close` overwrites a status: `traces_append_only_iff` says which
of these calls do no harm.

Subscribers are handed the observation before anything else happens in `record_step`, so they
learn of steps that are then refused: `subscribers_learn_iff`.
-/

namespace Aaf

/-- A call of the recorder. -/
inductive RecorderCall : Type where
  | openTrace (id : TraceId) (intent : IntentId) : RecorderCall
  | recordStep (step : TraceStep) : RecorderCall
  | close (id : TraceId) (status : TraceStatus) : RecorderCall

namespace Recorder

variable {σ : Type} [TraceStore σ]

/-- The recorder takes a call. -/
def exec (r : Recorder σ) : RecorderCall → Except RecorderError Unit × Recorder σ
  | .openTrace id intent => r.openTrace id intent
  | .recordStep step => r.recordStep step
  | .close id status => r.close id status

omit [TraceStore σ] in
/-- `Recorder::new`, and `with_subscriber` so many times. -/
def new (store : σ) (subscribers : ℕ) : Recorder σ := ⟨store, ∅, List.replicate subscribers []⟩

/-- The trace that a call leaves behind, if it comes that far. -/
def written (r : Recorder σ) : RecorderCall → Option ExecutionTrace
  | .openTrace id intent =>
    match (TraceStore.put (ExecutionTrace.open id intent) r.store).1 with
    | .ok () => some (ExecutionTrace.open id intent)
    | .error _ => none
  | .recordStep step =>
    match r.traces.lookup step.observation.traceId with
    | some trace => if trace.status = .running then some (trace.record step) else none
    | none => none
  | .close id status => (r.traces.lookup id).map (·.close status)

end Recorder

/-- A store that keeps what it is given under its id, and changes nothing else. -/
class LawfulTraceStore (σ : Type) extends TraceStore σ where
  get_put_ne : ∀ trace s id, id ≠ trace.traceId → get id (put trace s).2 = get id s
  get_put_error : ∀ trace s id, (put trace s).1 ≠ .ok () → get id (put trace s).2 = get id s

instance : LawfulTraceStore InMemoryTraceStore where
  get_put_ne trace s id h := by
    change (match (s.inner.insert trace.traceId trace).lookup id with
      | some trace => _ | none => _) = _
    rw [AList.lookup_insert_ne h]
    rfl
  get_put_error trace s id h := absurd rfl h

namespace Recorder

variable {σ : Type}

/-- Traces are found under their own ids. -/
def Keyed (r : Recorder σ) : Prop :=
  ∀ id trace, r.traces.lookup id = some trace → trace.traceId = id

section Effects

variable [TraceStore σ] {r : Recorder σ}

theorem persist_store (trace : ExecutionTrace) (r : Recorder σ) :
    (r.persist trace).2.store = (TraceStore.put trace r.store).2 := by
  rw [persist]
  rcases TraceStore.put trace r.store with ⟨result, store⟩
  cases result <;> rfl

theorem persist_fst_eq_ok_iff {trace : ExecutionTrace} :
    (r.persist trace).1 = .ok () ↔ (TraceStore.put trace r.store).1 = .ok () := by
  rw [persist]
  rcases TraceStore.put trace r.store with ⟨result, store⟩
  cases result <;> simp

/-- What a call does to the table of open traces. -/
theorem traces_exec (hkeyed : r.Keyed) (call : RecorderCall) :
    (r.exec call).2.traces =
      match r.written call with
      | some trace => r.traces.insert trace.traceId trace
      | none => r.traces := by
  cases call with
  | openTrace id intent =>
    rw [exec, openTrace, written, persist]
    rcases TraceStore.put (ExecutionTrace.open id intent) r.store with ⟨result, store⟩
    cases result <;> rfl
  | recordStep step =>
    rw [exec, recordStep, written]
    cases hlookup : r.traces.lookup step.observation.traceId with
    | none => simp [hlookup]
    | some trace =>
      by_cases hrunning : trace.status = .running
      · simp [hlookup, hrunning, ExecutionTrace.record, hkeyed _ _ hlookup]
      · simp [hlookup, hrunning]
  | close id status =>
    rw [exec, close, written]
    cases hlookup : r.traces.lookup id with
    | none => simp
    | some trace => simp [ExecutionTrace.close, hkeyed _ _ hlookup]

theorem keyed_exec (hkeyed : r.Keyed) (call : RecorderCall) : (r.exec call).2.Keyed := by
  intro id trace hlookup
  rw [traces_exec hkeyed call] at hlookup
  cases hwritten : r.written call with
  | none =>
    rw [hwritten] at hlookup
    exact hkeyed id trace hlookup
  | some new =>
    rw [hwritten] at hlookup
    by_cases hid : id = new.traceId
    · rw [hid, AList.lookup_insert] at hlookup
      rw [hid, Option.some.inj hlookup]
    · rw [AList.lookup_insert_ne hid] at hlookup
      exact hkeyed id trace hlookup

theorem keyed_run (store : σ) (subscribers : ℕ) (calls : List RecorderCall) :
    (Machine.run exec (new store subscribers) calls).Keyed := by
  refine Machine.run_invariant (I := Keyed) ?_ (fun r call hkeyed => keyed_exec hkeyed call) calls
  intro id trace hlookup
  cases hlookup

end Effects

section Lawful

variable [LawfulTraceStore σ] {r : Recorder σ}

/-- The store is written under the same id. -/
theorem get_store_exec (call : RecorderCall) {id : TraceId}
    (hother : ∀ trace, r.written call = some trace → id ≠ trace.traceId) :
    TraceStore.get id (r.exec call).2.store = TraceStore.get id r.store := by
  cases call with
  | openTrace id' intent =>
    have hstore : (r.openTrace id' intent).2.store =
        (TraceStore.put (ExecutionTrace.open id' intent) r.store).2 := by
      rw [openTrace, ← persist_store]
      rcases r.persist (ExecutionTrace.open id' intent) with ⟨result, r'⟩
      cases result <;> rfl
    rw [exec, hstore]
    by_cases hok : (TraceStore.put (ExecutionTrace.open id' intent) r.store).1 = .ok ()
    · refine LawfulTraceStore.get_put_ne _ _ _ (hother _ ?_)
      rw [written, hok]
    · exact LawfulTraceStore.get_put_error _ _ _ hok
  | recordStep step =>
    rw [written] at hother
    rw [exec, recordStep]
    cases hlookup : r.traces.lookup step.observation.traceId with
    | none => simp [hlookup, notifySubscribers]
    | some trace =>
      by_cases hrunning : trace.status = .running
      · simp only [notifySubscribers_traces, hlookup, hrunning, ne_eq, not_true_eq_false, if_false,
          persist_store]
        refine LawfulTraceStore.get_put_ne _ _ _ (hother _ ?_)
        simp [hlookup, hrunning]
      · simp [hlookup, hrunning, notifySubscribers]
  | close id' status =>
    rw [written] at hother
    rw [exec, close]
    cases hlookup : r.traces.lookup id' with
    | none => rfl
    | some trace =>
      simp only [persist_store]
      refine LawfulTraceStore.get_put_ne _ _ _ (hother _ ?_)
      simp [hlookup]

/-- **A call changes what is seen of one trace at most.** -/
theorem get_exec (hkeyed : r.Keyed) (call : RecorderCall) (id : TraceId) :
    (r.exec call).2.get id =
      match r.written call with
      | some trace => if id = trace.traceId then .ok trace else r.get id
      | none => r.get id := by
  have hstore : (∀ trace, r.written call = some trace → id ≠ trace.traceId) →
      TraceStore.get id (r.exec call).2.store = TraceStore.get id r.store :=
    get_store_exec call
  rw [get, traces_exec hkeyed call]
  cases hwritten : r.written call with
  | none =>
    rw [hstore (fun trace htrace => (by cases hwritten.symm.trans htrace))]
    rfl
  | some new =>
    by_cases hid : id = new.traceId
    · subst hid
      simp [AList.lookup_insert]
    · have hother : ∀ trace, r.written call = some trace → id ≠ trace.traceId := by
        intro trace htrace
        cases hwritten.symm.trans htrace
        exact hid
      simp only [AList.lookup_insert_ne hid, hid, if_false, hstore hother]
      rfl

end Lawful

end Recorder

/-! ## Append-only, closed once -/

/-- The statuses that end a trace. -/
def TraceStatus.isFinal : TraceStatus → Bool
  | .completed | .failed | .partialResult => true
  | .running | .cancelled => false

namespace ExecutionTrace

/-- A later version of the trace: more steps at the end, and nothing new once it ended. -/
def ContinuedBy (trace trace' : ExecutionTrace) : Prop :=
  trace.steps <+: trace'.steps ∧
    (trace.status.isFinal = true → trace'.status = trace.status ∧ trace'.steps = trace.steps)

/-- The total cost is the sum over the steps. -/
def Balanced (trace : ExecutionTrace) : Prop :=
  trace.totalCostUsd = trace.steps.foldl (fun total step => total + step.costUsd) 0

theorem ContinuedBy.refl (trace : ExecutionTrace) : trace.ContinuedBy trace :=
  ⟨List.prefix_rfl, fun _ => ⟨rfl, rfl⟩⟩

theorem ContinuedBy.trans {trace trace' trace'' : ExecutionTrace} (h : trace.ContinuedBy trace')
    (h' : trace'.ContinuedBy trace'') : trace.ContinuedBy trace'' := by
  refine ⟨h.1.trans h'.1, fun hfinal => ?_⟩
  obtain ⟨hstatus, hsteps⟩ := h.2 hfinal
  rw [← hstatus] at hfinal
  obtain ⟨hstatus', hsteps'⟩ := h'.2 hfinal
  exact ⟨hstatus'.trans hstatus, hsteps'.trans hsteps⟩

/-- A new trace continues nothing but an empty one. -/
theorem continuedBy_open_iff {trace : ExecutionTrace} {id : TraceId} {intent : IntentId} :
    trace.ContinuedBy (ExecutionTrace.open id intent) ↔
      trace.steps = [] ∧ trace.status.isFinal = false := by
  rw [ContinuedBy, ExecutionTrace.open, List.prefix_nil]
  refine and_congr_right fun hsteps => ?_
  cases hstatus : trace.status <;> simp [TraceStatus.isFinal, hsteps]

theorem continuedBy_record {trace : ExecutionTrace} (step : TraceStep)
    (hrunning : trace.status = .running) : trace.ContinuedBy (trace.record step) := by
  refine ⟨List.prefix_append _ _, fun hfinal => ?_⟩
  rw [hrunning] at hfinal
  cases hfinal

theorem continuedBy_close_iff {trace : ExecutionTrace} {status : TraceStatus} :
    trace.ContinuedBy (trace.close status) ↔
      (trace.status.isFinal = true → status = trace.status) := by
  refine ⟨fun h hfinal => (h.2 hfinal).1, fun h => ⟨List.prefix_rfl, fun hfinal => ?_⟩⟩
  exact ⟨h hfinal, rfl⟩

theorem balanced_record {trace : ExecutionTrace} (h : trace.Balanced) (step : TraceStep) :
    (trace.record step).Balanced := by
  rw [Balanced, record, List.foldl_concat, ← h]

end ExecutionTrace

namespace Recorder

variable {σ : Type}

/-- Whatever is seen of a trace in `r`, a later version of it is seen in `r'`. -/
def Keeps [TraceStore σ] (r r' : Recorder σ) : Prop :=
  ∀ id trace, r.get id = .ok trace → ∃ trace', r'.get id = .ok trace' ∧ trace.ContinuedBy trace'

/-- Every trace that is seen has the sum of its steps for its cost. -/
def Balanced [TraceStore σ] (r : Recorder σ) : Prop :=
  ∀ id trace, r.get id = .ok trace → trace.Balanced

/-- A call that rewrites no trace: `open` for an id that shows nothing yet, or an empty trace
that is not over, unless the store refuses it; `close` for a trace that is not over, or with
the status that it has. -/
def Gentle [TraceStore σ] (r : Recorder σ) : RecorderCall → Prop
  | .openTrace id intent =>
    (TraceStore.put (ExecutionTrace.open id intent) r.store).1 = .ok () →
      ∀ trace, r.get id = .ok trace → trace.steps = [] ∧ trace.status.isFinal = false
  | .recordStep _ => True
  | .close id status =>
    ∀ trace, r.traces.lookup id = some trace → trace.status.isFinal = true →
      status = trace.status

section Preorder

variable [TraceStore σ]

theorem Keeps.refl (r : Recorder σ) : r.Keeps r := by
  intro id trace hget
  exact ⟨trace, hget, .refl trace⟩

theorem Keeps.trans {r r' r'' : Recorder σ} (h : r.Keeps r') (h' : r'.Keeps r'') :
    r.Keeps r'' := by
  intro id trace hget
  obtain ⟨trace', hget', hcontinued⟩ := h id trace hget
  obtain ⟨trace'', hget'', hcontinued'⟩ := h' id trace' hget'
  exact ⟨trace'', hget'', hcontinued.trans hcontinued'⟩

theorem get_of_lookup {r : Recorder σ} {id : TraceId} {trace : ExecutionTrace}
    (h : r.traces.lookup id = some trace) : r.get id = .ok trace := by
  rw [get, h]

theorem get_new (store : σ) (subscribers : ℕ) (id : TraceId) :
    (new store subscribers).get id =
      match TraceStore.get id store with
      | .ok trace => .ok trace
      | .error e => .error (.storage e) := rfl

end Preorder

section Lawful

variable [LawfulTraceStore σ] {r : Recorder σ}

/-- A call keeps to what was seen when the trace it leaves behind does. -/
theorem keeps_exec_iff_written (hkeyed : r.Keyed) (call : RecorderCall) :
    r.Keeps (r.exec call).2 ↔ ∀ new, r.written call = some new →
      ∀ trace, r.get new.traceId = .ok trace → trace.ContinuedBy new := by
  refine ⟨fun h new hwritten trace hget => ?_, fun h id trace hget => ?_⟩
  · obtain ⟨trace', hget', hcontinued⟩ := h _ _ hget
    rw [get_exec hkeyed call, hwritten] at hget'
    simp only [if_true, Except.ok.injEq] at hget'
    rw [hget']
    exact hcontinued
  · rw [get_exec hkeyed call]
    cases hwritten : r.written call with
    | none => exact ⟨trace, hget, .refl trace⟩
    | some new =>
      by_cases hid : id = new.traceId
      · subst hid
        exact ⟨new, if_pos rfl, h new hwritten trace hget⟩
      · exact ⟨trace, (if_neg hid).trans hget, .refl trace⟩

/-- **A call keeps to what was seen exactly when it is gentle.** -/
theorem keeps_exec_iff (hkeyed : r.Keyed) (call : RecorderCall) :
    r.Keeps (r.exec call).2 ↔ r.Gentle call := by
  rw [keeps_exec_iff_written hkeyed]
  cases call with
  | openTrace id intent =>
    rw [Gentle, written]
    rcases TraceStore.put (ExecutionTrace.open id intent) r.store with ⟨result, store⟩
    cases result with
    | error e => simp
    | ok _ =>
      simp only [Option.some_inj, forall_eq', forall_const]
      exact forall₂_congr fun trace _ => ExecutionTrace.continuedBy_open_iff
  | recordStep step =>
    rw [Gentle, written, iff_true]
    intro new hwritten trace hget
    cases hlookup : r.traces.lookup step.observation.traceId with
    | none => simp [hlookup] at hwritten
    | some old =>
      by_cases hrunning : old.status = .running
      · simp only [hlookup, hrunning, if_true, Option.some_inj] at hwritten
        subst hwritten
        have hid : old.traceId = step.observation.traceId := hkeyed _ _ hlookup
        change r.get old.traceId = .ok trace at hget
        rw [hid, get_of_lookup hlookup] at hget
        rw [← Except.ok.inj hget]
        exact ExecutionTrace.continuedBy_record step hrunning
      · simp [hlookup, hrunning] at hwritten
  | close id status =>
    rw [Gentle, written]
    cases hlookup : r.traces.lookup id with
    | none => simp
    | some old =>
      have hold : old.traceId = id := hkeyed _ _ hlookup
      have hid : (old.close status).traceId = id := hold
      simp only [Option.map_some, Option.some_inj, forall_eq', hid, get_of_lookup hlookup,
        Except.ok.injEq]
      exact ExecutionTrace.continuedBy_close_iff

theorem balanced_written (hbalanced : r.Balanced) {call : RecorderCall} {new : ExecutionTrace}
    (hwritten : r.written call = some new) : new.Balanced := by
  cases call with
  | openTrace id intent =>
    rw [written] at hwritten
    split at hwritten
    · rw [← Option.some.inj hwritten]
      rfl
    · cases hwritten
  | recordStep step =>
    rw [written] at hwritten
    split at hwritten
    · next trace hlookup =>
      split at hwritten
      · rw [← Option.some.inj hwritten]
        exact ExecutionTrace.balanced_record (hbalanced _ _ (get_of_lookup hlookup)) step
      · cases hwritten
    · cases hwritten
  | close id status =>
    rw [written, Option.map_eq_some_iff] at hwritten
    obtain ⟨trace, hlookup, rfl⟩ := hwritten
    have htrace : trace.Balanced := hbalanced _ _ (get_of_lookup hlookup)
    exact htrace

theorem balanced_exec (hkeyed : r.Keyed) (hbalanced : r.Balanced) (call : RecorderCall) :
    (r.exec call).2.Balanced := by
  intro id trace hget
  rw [get_exec hkeyed call] at hget
  cases hwritten : r.written call with
  | none =>
    rw [hwritten] at hget
    exact hbalanced id trace hget
  | some new =>
    rw [hwritten] at hget
    by_cases hid : id = new.traceId
    · rw [← Except.ok.inj ((if_pos hid).symm.trans hget)]
      exact balanced_written hbalanced hwritten
    · exact hbalanced id trace ((if_neg hid).symm.trans hget)

end Lawful

end Recorder

/-- **Traces are append-only and closed once in the runs whose calls are gentle.** From a new
recorder over a lawful store, later states show later versions of every trace, with the sum of
its steps for its cost, exactly when no call opens a trace anew that has steps or is over, and
none closes a trace that is over with another status. -/
theorem traces_append_only_iff {σ : Type} [LawfulTraceStore σ] {store : σ}
    (hstored : ∀ id trace, TraceStore.get id store = .ok trace → trace.Balanced)
    (subscribers : ℕ) (calls : List RecorderCall) :
    ((∀ pre mid post, calls = pre ++ mid ++ post →
        (Machine.run Recorder.exec (Recorder.new store subscribers) pre).Keeps
          (Machine.run Recorder.exec (Recorder.new store subscribers) (pre ++ mid))) ∧
      (∀ pre post, calls = pre ++ post →
        (Machine.run Recorder.exec (Recorder.new store subscribers) pre).Balanced)) ↔
      ∀ st ∈ Machine.trace Recorder.exec (Recorder.new store subscribers) calls,
        st.before.Gentle st.call := by
  have hsteps := Machine.forall_later_iff (Q := fun st => st.before.Gentle st.call)
    (Recorder.keyed_run store subscribers) Recorder.Keeps.refl Recorder.Keeps.trans
    (fun r call hkeyed => Recorder.keeps_exec_iff hkeyed call) calls
  rw [hsteps, and_iff_left]
  intro pre post _
  have hinvariant : ∀ r : Recorder σ, ∀ call, r.Keyed ∧ r.Balanced →
      (r.exec call).2.Keyed ∧ (r.exec call).2.Balanced := by
    rintro r call ⟨hkeyed, hbalanced⟩
    exact ⟨Recorder.keyed_exec hkeyed call, Recorder.balanced_exec hkeyed hbalanced call⟩
  refine (Machine.run_invariant ?_ hinvariant pre).2
  refine ⟨Recorder.keyed_run store subscribers [], fun id trace hget => hstored id trace ?_⟩
  rw [Recorder.get_new] at hget
  cases hstore : TraceStore.get id store with
  | error e =>
    rw [hstore] at hget
    cases hget
  | ok stored =>
    rw [hstore] at hget
    rw [Except.ok.inj hget]

/-! ### One trace -/

namespace SampleTrace

def id : TraceId := ⟨"trace-1"⟩

def intent : IntentId := ⟨"intent-1"⟩

def observation : Observation where
  traceId := id
  nodeId := ⟨"node-1"⟩
  step := 1
  agent := ⟨"system"⟩
  observed := []
  reasoning := ""
  decision := ""
  confidence := 0
  alternatives := []
  outcome := .success
  outcomeDetail := none

def step : TraceStep := stepOf observation "agent_execution" (.finite (1 / 100)) 200 50 80 none

/-- A trace that is opened, gets a step and is closed. -/
def calls : List RecorderCall := [.openTrace id intent, .recordStep step, .close id .completed]

/-- A recorder over an empty store in memory. -/
def recorder (subscribers : ℕ) : Recorder InMemoryTraceStore := .new ⟨∅⟩ subscribers

/-- What is seen of the trace after the calls. -/
def seen (calls : List RecorderCall) : Except RecorderError ExecutionTrace :=
  (Machine.run Recorder.exec (recorder 0) calls).get id

end SampleTrace

theorem traces_append_only_iff_sampleTrace :
    SampleTrace.seen SampleTrace.calls =
        .ok (((ExecutionTrace.open SampleTrace.id SampleTrace.intent).record
          SampleTrace.step).close .completed) ∧
      ∀ pre mid post, SampleTrace.calls = pre ++ mid ++ post →
        (Machine.run Recorder.exec (SampleTrace.recorder 0) pre).Keeps
          (Machine.run Recorder.exec (SampleTrace.recorder 0) (pre ++ mid)) := by
  have hempty : ∀ id trace, TraceStore.get id (⟨∅⟩ : InMemoryTraceStore) = .ok trace →
      trace.Balanced := by
    intro id trace hget
    cases hget
  refine ⟨by decide +kernel, ((traces_append_only_iff hempty 0 _).mpr ?_).1⟩
  intro st hst
  simp only [SampleTrace.calls, Machine.trace, List.mem_cons, List.not_mem_nil, or_false] at hst
  rcases hst with rfl | rfl | rfl
  · intro _ trace hget
    cases hget
  · trivial
  · intro trace hlookup hfinal
    have hrunning : trace = (ExecutionTrace.open SampleTrace.id SampleTrace.intent).record
        SampleTrace.step := by
      refine Option.some.inj (hlookup.symm.trans ?_)
      decide +kernel
    rw [hrunning] at hfinal
    cases hfinal

/-- A trace that is opened again loses its steps, and one that is closed again its status. -/
theorem traces_rewritten :
    SampleTrace.seen [.openTrace SampleTrace.id SampleTrace.intent,
        .recordStep SampleTrace.step] =
      .ok ((ExecutionTrace.open SampleTrace.id SampleTrace.intent).record SampleTrace.step) ∧
    SampleTrace.seen [.openTrace SampleTrace.id SampleTrace.intent, .recordStep SampleTrace.step,
        .openTrace SampleTrace.id SampleTrace.intent] =
      .ok (ExecutionTrace.open SampleTrace.id SampleTrace.intent) ∧
    SampleTrace.seen [.openTrace SampleTrace.id SampleTrace.intent,
        .close SampleTrace.id .completed] =
      .ok ((ExecutionTrace.open SampleTrace.id SampleTrace.intent).close .completed) ∧
    SampleTrace.seen [.openTrace SampleTrace.id SampleTrace.intent,
        .close SampleTrace.id .completed, .close SampleTrace.id .failed] =
      .ok ((ExecutionTrace.open SampleTrace.id SampleTrace.intent).close .failed) := by
  decide +kernel

/-! ## Subscribers -/

/-- The observation that a call brings along. -/
def RecorderCall.observation? : RecorderCall → Option Observation
  | .recordStep step => some step.observation
  | _ => none

/-- The observations of the steps that were recorded. -/
def recorded {σ : Type} (steps : List (Machine.Step (Recorder σ) RecorderCall
    (Except RecorderError Unit))) : List Observation :=
  (steps.filter fun st => decide (st.reply = .ok ())).filterMap fun st => st.call.observation?

namespace Recorder

variable {σ : Type} [TraceStore σ]

@[simp] theorem persist_inboxes (trace : ExecutionTrace) (r : Recorder σ) :
    (r.persist trace).2.inboxes = r.inboxes := by
  rw [persist]
  split <;> rfl

/-- Every subscriber is handed every observation, and nothing else. -/
theorem inboxes_exec (r : Recorder σ) (call : RecorderCall) :
    (r.exec call).2.inboxes = r.inboxes.map (· ++ call.observation?.toList) := by
  cases call with
  | openTrace id intent =>
    have hpersist := persist_inboxes (ExecutionTrace.open id intent) r
    rw [exec, openTrace]
    generalize r.persist (ExecutionTrace.open id intent) = outcome at hpersist ⊢
    rcases outcome with ⟨result, r'⟩
    cases result <;> simpa [RecorderCall.observation?] using hpersist
  | recordStep step =>
    rw [exec, recordStep]
    split
    · rfl
    · split
      · rfl
      · rw [persist_inboxes]
        rfl
  | close id status =>
    rw [exec, close]
    split
    · simp [RecorderCall.observation?]
    · simp [RecorderCall.observation?]

theorem inboxes_run (store : σ) (subscribers : ℕ) (calls : List RecorderCall) :
    (Machine.run exec (new store subscribers) calls).inboxes =
      List.replicate subscribers (calls.filterMap RecorderCall.observation?) := by
  induction calls using List.reverseRecOn with
  | nil => rfl
  | append_singleton calls call ih =>
    rw [Machine.run_concat, inboxes_exec, ih, List.map_replicate, List.filterMap_append]
    cases hcall : call.observation? <;> simp [hcall]

/-- A step is recorded when its trace is open and running and the store takes it. -/
theorem recordStep_fst_eq_ok_iff {r : Recorder σ} {step : TraceStep} :
    (r.recordStep step).1 = .ok () ↔
      ∃ trace, r.traces.lookup step.observation.traceId = some trace ∧
        trace.status = .running ∧ (TraceStore.put (trace.record step) r.store).1 = .ok () := by
  rw [recordStep]
  cases hlookup : r.traces.lookup step.observation.traceId with
  | none => simp [hlookup]
  | some trace =>
    by_cases hrunning : trace.status = .running
    · simp [hlookup, hrunning, persist_fst_eq_ok_iff, notifySubscribers]
    · simp [hlookup, hrunning]

end Recorder

/-- Filtering first loses nothing exactly when it keeps everything that counts. -/
theorem length_filterMap_filter_iff {α β : Type} {p : α → Bool} {f : α → Option β} {l : List α} :
    ((l.filter p).filterMap f).length = (l.filterMap f).length ↔
      ∀ a ∈ l, (f a).isSome = true → p a = true := by
  have hle : ∀ l : List α, ((l.filter p).filterMap f).length ≤ (l.filterMap f).length :=
    fun l => (List.Sublist.filterMap f List.filter_sublist).length_le
  induction l with
  | nil => simp
  | cons a l ih =>
    have hrest := hle l
    rw [List.forall_mem_cons, ← propext ih]
    cases hp : p a <;> cases hf : f a <;> simp [hp, hf]
    omega

/-- All observations were recorded when no call that brought one failed. -/
theorem perm_recorded_iff {σ : Type} [TraceStore σ] {r : Recorder σ} {calls : List RecorderCall} :
    (calls.filterMap RecorderCall.observation?).Perm
        (recorded (Machine.trace Recorder.exec r calls)) ↔
      ∀ st ∈ Machine.trace Recorder.exec r calls,
        st.call.observation?.isSome = true → st.reply = .ok () := by
  have hcalls : calls.filterMap RecorderCall.observation? =
      (Machine.trace Recorder.exec r calls).filterMap fun st => st.call.observation? := by
    conv_lhs => rw [← @Machine.trace_map_call _ _ _ Recorder.exec r calls]
    rw [List.filterMap_map]
    rfl
  have hlength := length_filterMap_filter_iff (p := fun st => decide (st.reply = .ok ()))
    (f := fun st => st.call.observation?) (l := Machine.trace Recorder.exec r calls)
  simp only [decide_eq_true_eq] at hlength
  rw [hcalls, ← hlength]
  refine ⟨fun hperm => hperm.length_eq.symm, fun hsame => ?_⟩
  have hsublist := List.Sublist.filterMap (fun st => st.call.observation?)
    (List.filter_sublist (p := fun st => decide (st.reply = .ok ()))
      (l := Machine.trace Recorder.exec r calls))
  rw [recorded, hsublist.eq_of_length hsame]

/-- **Subscribers learn from recorded steps exactly when every step is recorded.** For every
behaviour of the store: what each subscriber was handed is what was recorded, exactly when
there is no subscriber or every `record_step` found its trace open and running and the store
took its snapshot. -/
theorem subscribers_learn_iff {σ : Type} [TraceStore σ] (store : σ) (subscribers : ℕ)
    (calls : List RecorderCall) :
    (∀ inbox ∈ (Machine.run Recorder.exec (Recorder.new store subscribers) calls).inboxes,
      inbox.Perm
        (recorded (Machine.trace Recorder.exec (Recorder.new store subscribers) calls))) ↔
      subscribers = 0 ∨
        ∀ st ∈ Machine.trace Recorder.exec (Recorder.new store subscribers) calls,
          ∀ step, st.call = .recordStep step →
            ∃ trace, st.before.traces.lookup step.observation.traceId = some trace ∧
              trace.status = .running ∧
              (TraceStore.put (trace.record step) st.before.store).1 = .ok () := by
  rw [Recorder.inboxes_run]
  by_cases hnone : subscribers = 0
  · simp [hnone]
  · have hreplicate : ∀ inbox, inbox ∈ List.replicate subscribers
        (calls.filterMap RecorderCall.observation?) ↔
          inbox = calls.filterMap RecorderCall.observation? := by
      simp [hnone]
    simp only [hreplicate, forall_eq, or_iff_right hnone]
    rw [perm_recorded_iff]
    refine forall₂_congr fun st hst => ?_
    obtain ⟨pre, call, post, -, rfl⟩ := Machine.mem_trace_iff.mp hst
    cases call with
    | openTrace id intent => simp [Machine.stepAt, RecorderCall.observation?]
    | close id status => simp [Machine.stepAt, RecorderCall.observation?]
    | recordStep step =>
      simp only [Machine.stepAt, RecorderCall.observation?, Option.isSome_some, forall_const,
        RecorderCall.recordStep.injEq, forall_eq']
      exact Recorder.recordStep_fst_eq_ok_iff

/-- A step for a trace that was never opened is announced, and refused. -/
theorem subscribers_learn_refused :
    (Machine.run Recorder.exec (SampleTrace.recorder 1)
      [.recordStep SampleTrace.step]).inboxes = [[SampleTrace.observation]] ∧
    ((SampleTrace.recorder 1).recordStep SampleTrace.step).1 =
      .error (.notOpened SampleTrace.id) ∧
    recorded (Machine.trace Recorder.exec (SampleTrace.recorder 1)
      [.recordStep SampleTrace.step]) = [] := by
  decide +kernel

end Aaf
