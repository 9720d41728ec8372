import Aaf.Node

/-!
# The trace recorder

`aaf-trace` over `aaf-storage`. The two trait surfaces are classes on the type
of the implementation's state, and every operation passes that state along. An
operation that fails may still have changed it: `Recorder::record_step` notifies
the subscribers and updates the open trace before it writes to the store.

`LawfulRecorder` is the contract of the trait as its callers rely on it: opening
succeeds, and an open trace accepts steps and can be closed. A `Recorder` over a
store that never refuses a write keeps it.
-/

namespace Aaf

/-! ## Stores -/

/-- The `TraceStore` trait. -/
class TraceStore (σ : Type) where
  put : ExecutionTrace → σ → Except StorageError Unit × σ
  get : TraceId → σ → Except StorageError ExecutionTrace

/-- The in-memory store. -/
structure InMemoryTraceStore where
  inner : HashMap TraceId ExecutionTrace

instance : TraceStore InMemoryTraceStore where
  put trace s := (.ok (), ⟨s.inner.insert trace.traceId trace⟩)
  get id s :=
    match s.inner.lookup id with
    | some trace => .ok trace
    | none => .error (.notFound id.raw)

/-- A store that refuses no write. -/
class ReliableStore (σ : Type) extends TraceStore σ where
  put_ok : ∀ trace s, (put trace s).1 = .ok ()

instance : ReliableStore InMemoryTraceStore where
  put_ok _ _ := rfl

/-! ## The trait -/

/-- Errors raised by the recorder. -/
inductive RecorderError : Type where
  | storage (e : StorageError) : RecorderError
  | alreadyClosed : RecorderError
  | notOpened (id : TraceId) : RecorderError
  deriving DecidableEq, Repr

/-- The `Display` rendering. -/
def RecorderError.display : RecorderError → String
  | storage e => "storage: " ++ e.display
  | alreadyClosed => "trace already closed"
  | notOpened id => "trace not opened: " ++ id.raw

/-- The `TraceRecorder` trait. -/
class TraceRecorder (ρ : Type) where
  openTrace : TraceId → IntentId → ρ → Except RecorderError Unit × ρ
  recordStep : TraceStep → ρ → Except RecorderError Unit × ρ
  close : TraceId → TraceStatus → ρ → Except RecorderError Unit × ρ
  get : TraceId → ρ → Except RecorderError ExecutionTrace

/-- `TraceRecorder::record_observation`: the step built from an observation. -/
def stepOf (observation : Observation) (stepType : String) (costUsd : F64)
    (durationMs tokensIn tokensOut : ℕ) (model : Option String) : TraceStep where
  step := observation.step
  nodeId := observation.nodeId
  stepType := stepType
  model := model
  tokensIn := tokensIn
  tokensOut := tokensOut
  costUsd := costUsd
  durationMs := durationMs
  observation := observation

/-- The contract of the trait: a trace that was opened, and not closed since,
takes every step and can be closed. -/
class LawfulRecorder (ρ : Type) extends TraceRecorder ρ where
  IsOpen : ρ → TraceId → Prop
  open_ok : ∀ id intent r, (openTrace id intent r).1 = .ok () ∧ IsOpen (openTrace id intent r).2 id
  record_ok : ∀ step r, IsOpen r step.observation.traceId →
    (recordStep step r).1 = .ok () ∧ IsOpen (recordStep step r).2 step.observation.traceId
  close_ok : ∀ id status r, IsOpen r id → (close id status r).1 = .ok ()

/-! ## The recorder -/

/-- `Recorder`: the store, the traces it has open, and what each subscriber has
been handed. -/
structure Recorder (σ : Type) where
  store : σ
  traces : HashMap TraceId ExecutionTrace
  inboxes : List (List Observation)

namespace Recorder

variable {σ : Type} [TraceStore σ]

/-- Write a snapshot through to the store. -/
def persist (trace : ExecutionTrace) (r : Recorder σ) : Except RecorderError Unit × Recorder σ :=
  match TraceStore.put trace r.store with
  | (.ok (), store) => (.ok (), { r with store := store })
  | (.error e, store) => (.error (.storage e), { r with store := store })

/-- `Recorder::open`: the open table only changes once the store took the new
trace. -/
def openTrace (id : TraceId) (intent : IntentId) (r : Recorder σ) :
    Except RecorderError Unit × Recorder σ :=
  let trace := ExecutionTrace.open id intent
  match r.persist trace with
  | (.error e, r) => (.error e, r)
  | (.ok (), r) => (.ok (), { r with traces := r.traces.insert id trace })

/-- `notify_subscribers`: every subscriber is handed the observation. -/
def notifySubscribers (observation : Observation) (r : Recorder σ) : Recorder σ :=
  { r with inboxes := r.inboxes.map (· ++ [observation]) }

/-- `Recorder::record_step`. -/
def recordStep (step : TraceStep) (r : Recorder σ) : Except RecorderError Unit × Recorder σ :=
  let id := step.observation.traceId
  let r := r.notifySubscribers step.observation
  match r.traces.lookup id with
  | none => (.error (.notOpened id), r)
  | some trace =>
    if trace.status ≠ .running then (.error .alreadyClosed, r)
    else
      let trace := trace.record step
      ({ r with traces := r.traces.insert id trace } : Recorder σ).persist trace

/-- `Recorder::close`; a trace that is closed already may be closed again. -/
def close (id : TraceId) (status : TraceStatus) (r : Recorder σ) :
    Except RecorderError Unit × Recorder σ :=
  match r.traces.lookup id with
  | none => (.error (.notOpened id), r)
  | some trace =>
    let trace := trace.close status
    ({ r with traces := r.traces.insert id trace } : Recorder σ).persist trace

/-- `Recorder::get`. -/
def get (id : TraceId) (r : Recorder σ) : Except RecorderError ExecutionTrace :=
  match r.traces.lookup id with
  | some trace => .ok trace
  | none =>
    match TraceStore.get id r.store with
    | .ok trace => .ok trace
    | .error e => .error (.storage e)

instance : TraceRecorder (Recorder σ) where
  openTrace := openTrace
  recordStep := recordStep
  close := close
  get := get

/-- `Recorder::in_memory`. -/
def inMemory : Recorder InMemoryTraceStore := ⟨⟨∅⟩, ∅, []⟩

/-! ### What one operation does to the table of open traces -/

@[simp] theorem persist_traces (trace : ExecutionTrace) (r : Recorder σ) :
    (r.persist trace).2.traces = r.traces := by
  rw [persist]
  split <;> rfl

omit [TraceStore σ] in
@[simp] theorem notifySubscribers_traces (observation : Observation) (r : Recorder σ) :
    (r.notifySubscribers observation).traces = r.traces := rfl

/-- Opening leaves an empty running trace. -/
theorem openTrace_ok {id : TraceId} {intent : IntentId} {r : Recorder σ}
    (h : (r.openTrace id intent).1 = .ok ()) :
    (r.openTrace id intent).2.traces.lookup id = some (ExecutionTrace.open id intent) := by
  unfold openTrace at h ⊢
  dsimp only at h ⊢
  split at h
  · cases h
  · rw [AList.lookup_insert]

/-- Recording appends the step to a running trace. -/
theorem recordStep_ok {step : TraceStep} {r : Recorder σ} {trace : ExecutionTrace}
    (ht : r.traces.lookup step.observation.traceId = some trace)
    (h : (r.recordStep step).1 = .ok ()) :
    (r.recordStep step).2.traces.lookup step.observation.traceId = some (trace.record step) ∧
      trace.status = .running := by
  rw [recordStep] at h ⊢
  simp only [notifySubscribers_traces, ht] at h ⊢
  by_cases hs : trace.status = .running
  · rw [if_neg (not_not.mpr hs)] at h ⊢
    rw [persist_traces, AList.lookup_insert]
    exact ⟨rfl, hs⟩
  · rw [if_pos hs] at h
    cases h

/-- Closing sets the status. -/
theorem close_traces {id : TraceId} {status : TraceStatus} {r : Recorder σ} {trace : ExecutionTrace}
    (ht : r.traces.lookup id = some trace) :
    (r.close id status).2.traces.lookup id = some (trace.close status) := by
  rw [close]
  simp only [ht]
  rw [persist_traces, AList.lookup_insert]

/-! ### Other traces are left alone -/

theorem openTrace_lookup_ne {id other : TraceId} (intent : IntentId) (r : Recorder σ)
    (h : other ≠ id) : (r.openTrace id intent).2.traces.lookup other = r.traces.lookup other := by
  have hp := persist_traces (ExecutionTrace.open id intent) r
  unfold openTrace
  dsimp only
  split
  · next e r' heq => rw [heq] at hp; rw [hp]
  · next r' heq =>
    rw [heq] at hp
    rw [AList.lookup_insert_ne h, hp]

theorem recordStep_lookup_ne {other : TraceId} (step : TraceStep) (r : Recorder σ)
    (h : other ≠ step.observation.traceId) :
    (r.recordStep step).2.traces.lookup other = r.traces.lookup other := by
  rw [recordStep]
  simp only [notifySubscribers_traces]
  split
  · rfl
  · split
    · rfl
    · rw [persist_traces, AList.lookup_insert_ne h]

theorem close_lookup_ne {id other : TraceId} (status : TraceStatus) (r : Recorder σ)
    (h : other ≠ id) : (r.close id status).2.traces.lookup other = r.traces.lookup other := by
  rw [close]
  split
  · rfl
  · rw [persist_traces, AList.lookup_insert_ne h]

end Recorder

/-! ## A recorder over a reliable store is lawful -/

section Reliable

variable {σ : Type} [ReliableStore σ]

theorem Recorder.persist_ok (trace : ExecutionTrace) (r : Recorder σ) :
    (r.persist trace).1 = .ok () := by
  have hput := ReliableStore.put_ok trace r.store
  rw [Recorder.persist]
  split
  · rfl
  · next e store heq =>
    rw [heq] at hput
    cases hput

instance : LawfulRecorder (Recorder σ) where
  IsOpen r id := ∃ trace, r.traces.lookup id = some trace ∧ trace.status = .running
  open_ok id intent r := by
    have hok : (r.openTrace id intent).1 = .ok () := by
      have hp := Recorder.persist_ok (ExecutionTrace.open id intent) r
      unfold Recorder.openTrace
      dsimp only
      split
      · next e r' heq =>
        rw [heq] at hp
        cases hp
      · rfl
    exact ⟨hok, _, Recorder.openTrace_ok hok, rfl⟩
  record_ok step r := by
    rintro ⟨trace, ht, hs⟩
    have hok : (r.recordStep step).1 = .ok () := by
      rw [Recorder.recordStep]
      simp only [Recorder.notifySubscribers_traces, ht]
      rw [if_neg (not_not.mpr hs)]
      exact Recorder.persist_ok _ _
    exact ⟨hok, _, (Recorder.recordStep_ok ht hok).1, hs⟩
  close_ok id status r := by
    rintro ⟨trace, ht, -⟩
    change (r.close id status).1 = .ok ()
    rw [Recorder.close]
    simp only [ht]
    exact Recorder.persist_ok _ _

end Reliable

end Aaf
