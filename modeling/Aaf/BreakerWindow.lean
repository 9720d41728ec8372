import Aaf.BreakerRuns

/-!
# What a snapshot counts

A breaker prunes its failures when an outcome is recorded, and only then. `failures_after`
says what it has stored after any run: the failures since it last entered `Closed` that no
later outcome has pruned. A snapshot counts all of them, those included that have left the
window in the meantime (`leftovers`).

`snapshot_count_iff`: the count is the one of the window exactly when there are no
leftovers, up to a multiple of `2 ^ 32`.
-/

namespace Aaf

namespace CircuitBreakerRegistry

/-- The steps since the breaker of `key` last entered `Closed`. -/
def sinceClosed (key : String) (steps : List BreakerStep) : List BreakerStep :=
  steps.rtakeWhile fun st => decide (¬ EntersClosed key st)

/-- The call records an outcome on `key`. -/
def RecordsOutcome (key : String) (st : BreakerStep) : Prop := Prunes (st.call.call.asks key)

instance (key : String) (st : BreakerStep) : Decidable (RecordsOutcome key st) :=
  inferInstanceAs (Decidable (Prunes _))

/-- A failure at `t` is out of the window when an outcome of these steps is recorded. -/
def PrunedBy (key : String) (window t : ℤ) (later : List BreakerStep) : Prop :=
  ∃ st ∈ later, RecordsOutcome key st ∧ t + window ≤ st.call.now

instance (key : String) (window t : ℤ) (later : List BreakerStep) :
    Decidable (PrunedBy key window t later) :=
  inferInstanceAs (Decidable (∃ st ∈ later, _))

/-- The failures of the steps that no later outcome has pruned. -/
def unpruned (key : String) (window : ℤ) : List BreakerStep → List ℤ
  | [] => []
  | st :: later =>
    (failureAt key st).toList.filter (fun t => decide (¬ PrunedBy key window t later)) ++
      unpruned key window later

/-- The failures since the breaker last entered `Closed` that have left the window by the
instant `now`, with no outcome recorded since they left it. -/
def leftovers (key : String) (window now : ℤ) (steps : List BreakerStep) : List ℤ :=
  (unpruned key window (sinceClosed key steps)).filter fun t => decide (t + window ≤ now)

/-- The failures in the window `(now - window, now]` since the breaker last entered
`Closed`. -/
def failuresInWindow (key : String) (window now : ℤ) (steps : List BreakerStep) : List ℤ :=
  (failuresSinceClosed key steps).filter fun t => decide (now - window < t ∧ t ≤ now)

variable {key : String} {window now t : ℤ} {st : BreakerStep} {steps : List BreakerStep}

/-! ## One more call -/

theorem sinceClosed_concat :
    sinceClosed key (steps ++ [st]) =
      if EntersClosed key st then [] else sinceClosed key steps ++ [st] := by
  rw [sinceClosed, List.rtakeWhile_concat]
  by_cases henters : EntersClosed key st
  · rw [if_pos henters, if_neg (by simpa using henters)]
  · rw [if_neg henters, if_pos (by simpa using henters)]
    rfl

theorem prunedBy_concat :
    PrunedBy key window t (steps ++ [st]) ↔
      PrunedBy key window t steps ∨ (RecordsOutcome key st ∧ t + window ≤ st.call.now) := by
  simp only [PrunedBy, List.mem_append, List.mem_singleton]
  constructor
  · rintro ⟨st', hst' | rfl, h⟩
    · exact Or.inl ⟨st', hst', h⟩
    · exact Or.inr h
  · rintro (⟨st', hst', h⟩ | h)
    · exact ⟨st', Or.inl hst', h⟩
    · exact ⟨st, Or.inr rfl, h⟩

/-- An outcome prunes what was left and adds its own failure. -/
theorem unpruned_concat :
    unpruned key window (steps ++ [st]) =
      leftBy window st.call.now (st.call.call.asks key) (unpruned key window steps) ++
        (failureAt key st).toList := by
  induction steps with
  | nil =>
    have hnone : ∀ t, ¬ PrunedBy key window t [] := fun t ⟨st, hst, _⟩ =>
      List.not_mem_nil hst
    simp [unpruned, leftBy, hnone]
  | cons st' steps ih =>
    rw [List.cons_append, unpruned, ih, unpruned, leftBy, leftBy, List.filter_append,
      List.filter_filter, ← List.append_assoc]
    congr 2
    refine List.filter_congr fun t _ => ?_
    rw [← Bool.decide_and, decide_eq_decide, prunedBy_concat, RecordsOutcome]
    tauto

/-! ## What is stored -/

/-- **Stored failures.** A breaker has stored the failures since it last entered `Closed`
that no later outcome has pruned. -/
theorem failures_after (key : String) (events : List BreakerEvent) :
    ∀ {b : BreakerInner}, (after events).lookup key = some b →
      b.failures = unpruned key b.config.window (sinceClosed key (history events)) := by
  induction events using List.reverseRecOn with
  | nil =>
    intro b h
    cases h
  | append_singleton events e ih =>
    intro b h
    rw [history_concat, sinceClosed_concat]
    rcases lookup_after_concat h with ⟨b₀, hb₀, rfl⟩ | ⟨hnone, level, config, rfl⟩
    · rw [BreakerInner.did_config]
      rcases failures_did b₀ e.now (e.call.asks key) with ⟨hresets, hempty⟩ | ⟨hnot, hleft⟩
      · rw [if_pos ((entersClosed_stepAt hb₀ e).mpr hresets), hempty]
        rfl
      · rw [if_neg fun henters => hnot ((entersClosed_stepAt hb₀ e).mp henters), unpruned_concat,
          failureAt_stepAt, hleft, ih hb₀]
        rfl
    · rw [if_pos (entersClosed_of_new hnone h)]
      rfl

/-- Seen from a later instant: the failures in the window, and the leftovers. -/
theorem length_failures {events : List BreakerEvent} {b : BreakerInner} (htimed : Timed events)
    (hnow : ∀ e ∈ events, e.now ≤ now) (h : (after events).lookup key = some b) :
    b.failures.length = (failuresInWindow key b.config.window now (history events)).length +
      (leftovers key b.config.window now (history events)).length := by
  have hwindow : failuresInWindow key b.config.window now (history events) =
      inWindow b.config now b.failures := by
    rw [tracks_after key events htimed h now hnow, failuresInWindow, inWindow]
    refine List.filter_congr fun t ht => ?_
    rw [decide_eq_decide, and_iff_left (le_of_mem_failuresSinceClosed hnow ht)]
  have hleft : leftovers key b.config.window now (history events) =
      b.failures.filter fun t => !decide (now - b.config.window < t) := by
    rw [leftovers, ← failures_after key events h]
    refine List.filter_congr fun t _ => ?_
    rw [← decide_not, decide_eq_decide]
    omega
  rw [hwindow, hleft, inWindow]
  exact List.length_eq_length_filter_add _

/-! ## The snapshot -/

/-- The call shows the snapshot `snap` of the breaker of `key`. -/
def Shows (key : String) (st : BreakerStep) (snap : BreakerSnapshot) : Prop :=
  (st.call.call = .on key .snapshot ∧ st.reply = .snapshot (some snap)) ∨
    (st.call.call = .allSnapshots ∧ snap.key = key ∧ ∃ snaps, st.reply = .snapshots snaps ∧
      snap ∈ snaps)

/-- Both calls show the stored failures. -/
theorem failureCount_of_shows {r : CircuitBreakerRegistry} {e : BreakerEvent}
    {snap : BreakerSnapshot} (h : Shows key (Machine.stepAt exec r e) snap) :
    ∃ b, r.lookup key = some b ∧ snap.failureCount = UInt32.ofNat b.failures.length := by
  have heffective : ∀ b : BreakerInner, (b.effectiveState e.now).failures = b.failures := by
    intro b
    rcases BreakerInner.effectiveState_cases b e.now with ⟨-, heq⟩ | ⟨-, heq⟩ <;> rw [heq]
  obtain ⟨at', call⟩ := e
  rcases h with ⟨hcall, hreply⟩ | ⟨hcall, rfl, snaps, hreply, hsnap⟩
  · obtain rfl : call = .on key .snapshot := hcall
    have hsnapshot : (r.snapshot at' key).1 = some snap := BreakerReply.snapshot.inj hreply
    rw [snapshot, getMut] at hsnapshot
    rcases hb : r.lookup key with _ | b
    · rw [hb] at hsnapshot
      cases hsnapshot
    · rw [hb] at hsnapshot
      refine ⟨b, rfl, ?_⟩
      rw [← Option.some.inj hsnapshot, ← heffective b]
      rfl
  · obtain rfl : call = .allSnapshots := hcall
    have hsnaps : (r.allSnapshots at').1 = snaps := BreakerReply.snapshots.inj hreply
    rw [← hsnaps, allSnapshots, List.mem_map] at hsnap
    obtain ⟨⟨key, b⟩, hentry, rfl⟩ := hsnap
    have hlookup : (r.effective at').lookup key = some b := AList.mem_lookup_iff.mpr hentry
    rw [lookup_effective, Option.map_eq_some_iff] at hlookup
    obtain ⟨b, hb, rfl⟩ := hlookup
    refine ⟨b, hb, ?_⟩
    rw [← heffective b]
    rfl

/-- **Windowed counts.** A snapshot counts the failures recorded in the window since the
breaker last entered `Closed` exactly when there are no leftovers to count, or as many as
the counter does not show. -/
theorem snapshot_count_iff {events : List BreakerEvent} {e : BreakerEvent} {b : BreakerInner}
    {snap : BreakerSnapshot} (htimed : Timed (events ++ [e]))
    (hb : (after events).lookup key = some b)
    (hshows : Shows key (Machine.stepAt exec (after events) e) snap) :
    snap.failureCount.toNat =
        (failuresInWindow key b.config.window e.now (history events)).length ↔
      (failuresInWindow key b.config.window e.now (history events)).length < UInt32.size ∧
        UInt32.size ∣ (leftovers key b.config.window e.now (history events)).length := by
  obtain ⟨htimed', -, hlast⟩ := List.pairwise_append.mp htimed
  have hnow : ∀ e' ∈ events, e'.now ≤ e.now := fun e' he' =>
    hlast e' he' e (List.mem_singleton_self e)
  obtain ⟨b', hb', hcount⟩ := failureCount_of_shows hshows
  obtain rfl : b' = b := Option.some.inj (hb'.symm.trans hb)
  rw [hcount, UInt32.toNat_ofNat', length_failures htimed' hnow hb]
  generalize (failuresInWindow key b'.config.window e.now (history events)).length = windowed
  generalize (leftovers key b'.config.window e.now (history events)).length = left
  have hsize : UInt32.size = 2 ^ 32 := rfl
  rw [hsize, Nat.dvd_iff_mod_eq_zero]
  omega

/-- A breaker with the default window of a minute and a failure at instant zero. -/
def failedOnce : List BreakerEvent :=
  [⟨0, .register "svc" .service .default⟩, ⟨0, .on "svc" (.recordFailure none)⟩]

/-- The breaker of `failedOnce`. -/
def failedBreaker : BreakerInner := { BreakerInner.new .service .default with failures := [0] }

/-- What a snapshot shows of it. -/
def failedSnapshot : BreakerSnapshot := ⟨"svc", .service, .closed, 1, none⟩

/-- A second later the failure is in the window. -/
theorem snapshot_count_failedOnce :
    failedSnapshot.failureCount.toNat =
      (failuresInWindow "svc" 60000000000 1000000000 (history failedOnce)).length := by
  have hshows : Shows "svc" (Machine.stepAt exec (after failedOnce)
      ⟨1000000000, .on "svc" .snapshot⟩) failedSnapshot := Or.inl ⟨rfl, by decide +kernel⟩
  have hb : (after failedOnce).lookup "svc" = some failedBreaker := by decide +kernel
  exact (snapshot_count_iff (by decide +kernel) hb hshows).mpr
    ⟨by decide +kernel, by decide +kernel⟩

/-- A minute and a second later it is not, and the snapshot still counts it. -/
theorem failedOnce_counted_late :
    Timed (failedOnce ++ [⟨61000000000, .on "svc" .snapshot⟩]) ∧
      (after failedOnce).lookup "svc" = some failedBreaker ∧
      Shows "svc" (Machine.stepAt exec (after failedOnce) ⟨61000000000, .on "svc" .snapshot⟩)
        failedSnapshot ∧
      failedSnapshot.failureCount.toNat = 1 ∧
      failuresInWindow "svc" failedBreaker.config.window 61000000000 (history failedOnce) = [] :=
  ⟨by decide +kernel, by decide +kernel, Or.inl ⟨rfl, by decide +kernel⟩, rfl, by decide +kernel⟩

end CircuitBreakerRegistry

end Aaf
