import Mathlib.Logic.Function.Basic
import Aaf.Loop

/-!
# Runs of a system, and calls that interleave

A run is a list of events, each of them possible where it is taken. What holds of a run is proved
one event at a time (`Runs.invariant`), and what has come to hold came to do so at one of the events
(`Runs.crossed`).

In particular any number of calls, numbered, may share a value, each of them in a phase of its own.
An event is then one step of one call: `next` says what it makes of the value and of the call's
phase, and where `next` says nothing the call is not at that step. A call that has come into a phase
did so at one of its events (`Runs.entered`), and one for which no step is left takes none
(`Runs.final`).
-/

namespace Interleaving

universe u v w

/-! ## Runs -/

section Runs

variable {σ : Type u} {α : Type v} {β : Type w} (step : σ → α → Except β σ)

/-- The events lead from `s` to `t`. -/
def Runs (s : σ) (events : List α) (t : σ) : Prop := events.foldlM step s = .ok t

/-- The state that the events lead to, if they are possible. -/
def final (s : σ) (events : List α) : Option σ := (events.foldlM step s).toOption

variable {step} {s t : σ} {a : α} {events more : List α}

theorem runs_iff_final : Runs step s events t ↔ final step s events = some t := by
  rw [Runs, final]
  cases events.foldlM step s with
  | error e => exact iff_of_false (fun h => by cases h) fun h => by cases h
  | ok u =>
    exact ⟨fun h => congrArg some (Except.ok.inj h), fun h => congrArg _ (Option.some.inj h)⟩

theorem Runs.nil (s : σ) : Runs step s [] s := rfl

theorem Runs.cons_iff :
    Runs step s (a :: events) t ↔ ∃ u, step s a = .ok u ∧ Runs step u events t :=
  Loop.foldlM_cons_ok

theorem Runs.concat_iff :
    Runs step s (events ++ [a]) t ↔ ∃ u, Runs step s events u ∧ step u a = .ok t :=
  Loop.foldlM_concat_ok

theorem Runs.append_iff :
    Runs step s (events ++ more) t ↔ ∃ u, Runs step s events u ∧ Runs step u more t :=
  Loop.foldlM_append_ok

/-- Events lead to one state only. -/
theorem Runs.unique {t' : σ} (h : Runs step s events t) (h' : Runs step s events t') : t = t' :=
  Except.ok.inj (h.symm.trans h')

/-- **Invariant rule.** What holds at the start and is kept by the events of a run holds after
it. -/
theorem Runs.invariant {I : σ → Prop} (hs : I s)
    (hstep : ∀ s t, ∀ a ∈ events, I s → step s a = .ok t → I t) (h : Runs step s events t) :
    I t := by
  induction events using List.reverseRecOn generalizing t with
  | nil =>
    cases h
    exact hs
  | append_singleton events last ih =>
    obtain ⟨u, hu, hlast⟩ := Runs.concat_iff.mp h
    refine hstep u t last (List.mem_append_right _ (List.mem_singleton_self _)) (ih ?_ hu) hlast
    exact fun s t a hmem => hstep s t a (List.mem_append_left _ hmem)

/-- **The last crossing.** What holds at the end of a run and did not at its start has come about
at one of the events, and held at its end ever since. -/
theorem Runs.crossed {P : σ → Prop} (h : Runs step s events t) (hs : ¬ P s) (ht : P t) :
    ∃ before a mid u u', events = before ++ a :: mid ∧ Runs step s before u ∧
      step u a = .ok u' ∧ Runs step u' mid t ∧ ¬ P u ∧ P u' := by
  induction events using List.reverseRecOn generalizing t with
  | nil =>
    cases h
    exact absurd ht hs
  | append_singleton events last ih =>
    obtain ⟨u, hu, hstep⟩ := Runs.concat_iff.mp h
    by_cases hP : P u
    · obtain ⟨before, a, mid, w, w', rfl, hw, hw', hmid, hbefore, hafter⟩ := ih hu hP
      refine ⟨before, a, mid ++ [last], w, w', by simp, hw, hw', ?_, hbefore, hafter⟩
      exact Runs.concat_iff.mpr ⟨u, hmid, hstep⟩
    · exact ⟨events, last, [], u, t, rfl, hu, hstep, Runs.nil t, hP, ht⟩

end Runs

/-! ## Calls -/

/-- The value that is shared, and the phases of the calls. -/
structure Shared (σ : Type u) (φ : Type v) where
  value : σ
  phase : ℕ → φ

namespace Shared

variable {σ : Type u} {φ : Type v}

/-- The call `k` leaves the value `v` and goes over to the phase `p`. -/
def put (s : Shared σ φ) (k : ℕ) (v : σ) (p : φ) : Shared σ φ :=
  ⟨v, Function.update s.phase k p⟩

variable (s : Shared σ φ) (k : ℕ) (v : σ) (p : φ)

@[simp] theorem value_put : (s.put k v p).value = v := rfl

@[simp] theorem phase_put_self : (s.put k v p).phase k = p := Function.update_self ..

theorem phase_put_of_ne {j : ℕ} (h : j ≠ k) : (s.put k v p).phase j = s.phase j :=
  Function.update_of_ne h ..

end Shared

/-- A call that is not at the step asked of it. -/
inductive Blocked : Type where
  | blocked : Blocked

section Calls

variable {σ : Type u} {φ : Type v} {ε : Type w} (next : ℕ → ε → σ → φ → Option (σ × φ))

/-- One step of one call. -/
def step (s : Shared σ φ) (event : ℕ × ε) : Except Blocked (Shared σ φ) :=
  match next event.1 event.2 s.value (s.phase event.1) with
  | some (v, p) => .ok (s.put event.1 v p)
  | none => .error .blocked

variable {next} {s t : Shared σ φ} {k : ℕ} {e : ε} {events : List (ℕ × ε)}

theorem step_ok_iff :
    step next s (k, e) = .ok t ↔
      ∃ v p, next k e s.value (s.phase k) = some (v, p) ∧ t = s.put k v p := by
  rw [step]
  rcases hnext : next k e s.value (s.phase k) with _ | ⟨v, p⟩
  · refine iff_of_false (fun h => by cases h) ?_
    rintro ⟨v, p, h, -⟩
    cases h
  · refine ⟨fun h => ⟨v, p, rfl, (Except.ok.inj h).symm⟩, ?_⟩
    rintro ⟨v', p', h, rfl⟩
    cases h
    rfl

/-- An event of one call leaves the others where they are. -/
theorem phase_of_ne (h : step next s (k, e) = .ok t) {j : ℕ} (hj : j ≠ k) :
    t.phase j = s.phase j := by
  obtain ⟨v, p, -, rfl⟩ := step_ok_iff.mp h
  exact s.phase_put_of_ne k v p hj

/-- **Coming into a phase.** A call that has come into a phase did so at one of its events. -/
theorem Runs.entered {P : φ → Prop} (h : Runs (step next) s events t) (hs : ¬ P (s.phase k))
    (ht : P (t.phase k)) :
    ∃ before e mid u u', events = before ++ (k, e) :: mid ∧ Runs (step next) s before u ∧
      step next u (k, e) = .ok u' ∧ Runs (step next) u' mid t ∧ ¬ P (u.phase k) ∧
      P (u'.phase k) := by
  obtain ⟨before, ⟨j, e⟩, mid, u, u', rfl, hu, hstep, hmid, hbefore, hafter⟩ :=
    Runs.crossed (P := fun s : Shared σ φ => P (s.phase k)) h hs ht
  obtain rfl : k = j := by
    by_contra hne
    exact hbefore (phase_of_ne hstep hne ▸ hafter)
  exact ⟨before, e, mid, u, u', rfl, hu, hstep, hmid, hbefore, hafter⟩

/-- **A final phase.** A call for which no step is left takes none. -/
theorem Runs.final {p : φ} (hfinal : ∀ e v, next k e v p = none) (hs : s.phase k = p)
    (h : Runs (step next) s events t) : t.phase k = p ∧ ∀ e, (k, e) ∉ events := by
  induction events generalizing s with
  | nil =>
    cases h
    exact ⟨hs, fun e => List.not_mem_nil⟩
  | cons first events ih =>
    obtain ⟨j, e⟩ := first
    obtain ⟨u, hstep, hrest⟩ := Runs.cons_iff.mp h
    have hne : k ≠ j := by
      rintro rfl
      obtain ⟨v, p', hnext, -⟩ := step_ok_iff.mp hstep
      rw [hs, hfinal] at hnext
      cases hnext
    obtain ⟨hphase, hevents⟩ := ih ((phase_of_ne hstep hne).trans hs) hrest
    refine ⟨hphase, fun e' hmem => ?_⟩
    rcases List.mem_cons.mp hmem with heq | hmem
    · exact hne (congrArg Prod.fst heq)
    · exact hevents e' hmem

end Calls

end Interleaving
