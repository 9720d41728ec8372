import Aaf.TraceHistory
import Aaf.WriteBehind

/-!
# Recorders racing on one trace

`Recorder::record_step` and `close` change the trace under the lock, and write the snapshot
they took to the store after they let go of it. Here any number of such calls on one trace
run together, each with its update and its write as two atomic steps, in any order.

Writes may land in another order than updates, and then an older snapshot stays in the store:
`stored_trace_converges_iff` says when it does not.
-/

namespace Aaf

namespace TraceRace

open WriteBehind

/-- The trace with the time of its completion. -/
structure Document where
  trace : ExecutionTrace
  completedAt : Option ℤ
  deriving DecidableEq, Repr

/-- A call on the trace. `close` reads the clock. -/
inductive TraceCall : Type where
  | record (step : TraceStep) : TraceCall
  | close (status : TraceStatus) (now : ℤ) : TraceCall

/-- What a call does under the lock. -/
def TraceCall.apply : TraceCall → Document → Option Document
  | .record step, doc =>
    if doc.trace.status ≠ .running then none
    else some { doc with trace := doc.trace.record step }
  | .close status now, doc => some ⟨doc.trace.close status, some now⟩

/-- The call as the recorder of the trace takes it. -/
def TraceCall.recorderCall (id : TraceId) : TraceCall → RecorderCall
  | .record step => .recordStep step
  | .close status _ => .close id status

/-- The trace that a recorder leaves behind is the one that the call makes. -/
theorem TraceCall.written_eq {σ : Type} [TraceStore σ] {r : Recorder σ} {id : TraceId}
    {doc : Document} (hlookup : r.traces.lookup id = some doc.trace) (call : TraceCall)
    (hid : ∀ step, call = .record step → step.observation.traceId = id) :
    r.written (call.recorderCall id) = (call.apply doc).map Document.trace := by
  cases call with
  | record step =>
    rw [recorderCall, Recorder.written, hid step rfl, hlookup]
    by_cases hrunning : doc.trace.status = .running <;> simp [apply, hrunning]
  | close status now => simp [recorderCall, Recorder.written, apply, hlookup]

/-! ## What calls in a row make of a trace -/

/-- Status and time of completion. -/
def Document.ending (doc : Document) : TraceStatus × Option ℤ := (doc.trace.status, doc.completedAt)

/-- The call is a `close`. -/
def TraceCall.isClose : TraceCall → Bool
  | .record _ => false
  | .close _ _ => true

/-- The status and time that the last `close` sets. -/
def closing (ending : TraceStatus × Option ℤ) (calls : List TraceCall) :
    TraceStatus × Option ℤ :=
  calls.foldl (fun ending call =>
    match call with
    | .record _ => ending
    | .close status now => (status, some now)) ending

theorem closing_append (ending : TraceStatus × Option ℤ) (calls more : List TraceCall) :
    closing ending (calls ++ more) = closing (closing ending calls) more :=
  List.foldl_append

variable {calls : ℕ → TraceCall}

/-- The call numbered `k`, as a change of the document. -/
def change (calls : ℕ → TraceCall) (k : ℕ) (doc : Document) : Option Document := (calls k).apply doc

theorem applied_cons {k : ℕ} {order : List ℕ} {doc doc' : Document} :
    applied (change calls) (k :: order) doc = some doc' ↔
      ∃ next, (calls k).apply doc = some next ∧ applied (change calls) order next = some doc' := by
  rw [applied, List.foldlM_cons, Option.bind_eq_bind, Option.bind_eq_some_iff]
  rfl

theorem ending_apply {call : TraceCall} {doc next : Document} (h : call.apply doc = some next) :
    next.ending = closing doc.ending [call] := by
  cases call with
  | record step =>
    rw [TraceCall.apply] at h
    split at h
    · cases h
    · cases h
      rfl
  | close status now =>
    cases h
    rfl

/-- The document ends as the last `close` said. -/
theorem ending_applied {order : List ℕ} {doc doc' : Document}
    (h : applied (change calls) order doc = some doc') :
    doc'.ending = closing doc.ending (order.map calls) := by
  induction order generalizing doc with
  | nil =>
    cases h
    rfl
  | cons k order ih =>
    obtain ⟨next, hnext, hrest⟩ := applied_cons.mp h
    rw [ih hrest, ending_apply hnext, ← closing_append]
    rfl

/-- Calls never take a step away, and keep their number when they are closes. -/
theorem length_steps_applied {order : List ℕ} {doc doc' : Document}
    (h : applied (change calls) order doc = some doc') :
    doc'.trace.steps.length =
      doc.trace.steps.length + order.countP (fun k => !(calls k).isClose) := by
  induction order generalizing doc with
  | nil =>
    cases h
    rfl
  | cons k order ih =>
    obtain ⟨next, hnext, hrest⟩ := applied_cons.mp h
    rw [ih hrest, List.countP_cons]
    cases hcall : calls k with
    | record step =>
      rw [hcall, TraceCall.apply] at hnext
      split at hnext
      · cases hnext
      · cases hnext
        simp [ExecutionTrace.record, TraceCall.isClose]
        omega
    | close status now =>
      rw [hcall] at hnext
      cases hnext
      simp [ExecutionTrace.close, TraceCall.isClose]

theorem close_ending (doc : Document) :
    (⟨doc.trace.close doc.ending.1, doc.ending.2⟩ : Document) = doc := rfl

/-- Closes change the ending and nothing else. -/
theorem applied_closes {order : List ℕ} {doc : Document}
    (hcloses : ∀ k ∈ order, (calls k).isClose = true) :
    applied (change calls) order doc =
      some ⟨doc.trace.close (closing doc.ending (order.map calls)).1,
        (closing doc.ending (order.map calls)).2⟩ := by
  induction order generalizing doc with
  | nil => rfl
  | cons k order ih =>
    rw [List.forall_mem_cons] at hcloses
    rw [applied_cons]
    cases hcall : calls k with
    | record step =>
      rw [hcall] at hcloses
      cases hcloses.1
    | close status now =>
      refine ⟨_, rfl, ?_⟩
      rw [ih hcloses.2, List.map_cons, hcall]
      rfl

/-- **Calls lead back to the document** when they are closes and the last of them sets the
ending that it had. -/
theorem applied_eq_self_iff {order : List ℕ} {doc : Document} :
    applied (change calls) order doc = some doc ↔
      (∀ k ∈ order, (calls k).isClose = true) ∧
        closing doc.ending (order.map calls) = doc.ending := by
  refine ⟨fun h => ⟨?_, (ending_applied h).symm⟩, ?_⟩
  · have hnone : order.countP (fun k => !(calls k).isClose) = 0 := by
      have hlength := length_steps_applied h
      omega
    simpa [List.countP_eq_zero] using hnone
  · rintro ⟨hcloses, hending⟩
    rw [applied_closes hcloses, hending, close_ending]

/-! ## The copy in the store -/

/-- Behind the update of the call that writes last there are only closes, and they leave the
ending as that call's snapshot has it. -/
def LastWriterCurrent (calls : ℕ → TraceCall) (doc : Document)
    (events : List WriteBehind.Event) : Prop :=
  ∀ pre k post before after, events = pre ++ .put k :: post → NoPut post →
    updates events = before ++ k :: after →
    (∀ j ∈ after, (calls j).isClose = true) ∧
      closing doc.ending ((before ++ k :: after).map calls) =
        closing doc.ending ((before ++ [k]).map calls)

/-- **The persisted trace converges to the recorded one** exactly in the schedules in which no
step is recorded, and no other ending set, behind the update of the call that writes last. -/
theorem stored_trace_converges_iff {doc : Document} {events : List WriteBehind.Event}
    {t : Shared Document} (h : Runs (change calls) doc events t) (hfinished : Finished t) :
    t.stored = t.memory ↔ LastWriterCurrent calls doc events := by
  rw [stored_eq_memory_iff h hfinished]
  have hmemory := (h.settled_of_finished hfinished).memory
  refine ⟨fun hback pre k post before after hevents hlast hupdates => ?_, ?_⟩
  · have hsplit : updates events = (before ++ [k]) ++ after := by
      rw [hupdates, List.append_assoc, List.singleton_append]
    rw [hsplit, applied_append, Option.bind_eq_some_iff] at hmemory
    obtain ⟨snapshot, htaken, -⟩ := hmemory
    obtain ⟨hcloses, hending⟩ := applied_eq_self_iff.mp
      (hback pre k post before after snapshot hevents hlast hupdates htaken)
    refine ⟨hcloses, ?_⟩
    rw [← hupdates, hsplit, List.map_append, closing_append, ← ending_applied htaken, hending]
  · intro hcurrent pre k post before after snapshot hevents hlast hupdates htaken
    obtain ⟨hcloses, hending⟩ := hcurrent pre k post before after hevents hlast hupdates
    refine applied_eq_self_iff.mpr ⟨hcloses, ?_⟩
    rw [List.append_cons, List.map_append, closing_append, ← ending_applied htaken] at hending
    exact hending

/-! ### A step and a close -/

/-- Call `0` records a step, every other call closes the trace. -/
def sampleCalls : ℕ → TraceCall
  | 0 => .record SampleTrace.step
  | _ => .close .completed 0

def opened : Document := ⟨ExecutionTrace.open SampleTrace.id SampleTrace.intent, none⟩

theorem stored_trace_converges_inOrder :
    ∃ t, Runs (change sampleCalls) opened [.update 0, .update 1, .put 0, .put 1] t ∧
      Finished t ∧ t.stored = t.memory := by
  obtain ⟨t, hruns, hfinished⟩ : ∃ t, Runs (change sampleCalls) opened
      [.update 0, .update 1, .put 0, .put 1] t ∧ Finished t := by
    refine ⟨_, rfl, ?_⟩
    rintro (_ | _ | k)
    · exact Or.inr rfl
    · exact Or.inr rfl
    · exact Or.inl rfl
  refine ⟨t, hruns, hfinished, (stored_trace_converges_iff hruns hfinished).mpr ?_⟩
  intro pre k post before after hevents hlast hupdates
  have hwrites : [.update 0, .update 1, .put 0] ++ .put 1 :: [] = pre ++ .put k :: post := hevents
  obtain rfl := last_put_unique hwrites (fun j => List.not_mem_nil) hlast
  have horder : [0] ++ 1 :: [] = before ++ 1 :: after := hupdates
  obtain ⟨rfl, -, rfl⟩ := (List.append_cons_inj_of_notMem (by decide) (by decide)).mp horder
  exact ⟨fun j hj => absurd hj List.not_mem_nil, rfl⟩

/-- The snapshot of the step is written behind that of the close. -/
theorem stored_trace_falls_behind :
    ∃ t, Runs (change sampleCalls) opened [.update 0, .update 1, .put 1, .put 0] t ∧
      Finished t ∧ t.memory.trace.status = .completed ∧ t.stored.trace.status = .running := by
  refine ⟨_, rfl, ?_, rfl, rfl⟩
  rintro (_ | _ | k)
  · exact Or.inr rfl
  · exact Or.inr rfl
  · exact Or.inl rfl

end TraceRace

end Aaf
