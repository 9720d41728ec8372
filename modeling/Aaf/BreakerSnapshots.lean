import Aaf.BreakerRuns

/-!
# What a dashboard does to the breakers

`snapshot` and `all_snapshots` evaluate the cooldown in place, and so does `allows`;
`record_failure` and `record_success` do not. A run with snapshots put into it is
compared here with the same run without them. The two are related by `Ahead`: breaker
by breaker they are the same, or the run with snapshots has already taken an elapsed
cooldown into account that the other has not looked at yet.

An outcome recorded in that moment finds a half-open breaker in one run and an open one
in the other. Nothing else tells them apart: `snapshotsObserve_iff`.
-/

namespace Aaf

/-- The call only shows what is there. -/
def BreakerEvent.isSnapshot (e : BreakerEvent) : Bool :=
  match e.call with
  | .on _ .snapshot | .allSnapshots => true
  | _ => false

/-- The operations that record an outcome. -/
def BreakerOp.isOutcome : BreakerOp → Bool
  | .recordFailure _ | .recordSuccess => true
  | _ => false

namespace CircuitBreakerRegistry

/-- The calls without the snapshots. -/
def withoutSnapshots (events : List BreakerEvent) : List BreakerEvent :=
  events.filter fun e => !e.isSnapshot

/-- The calls that are not snapshots, with their answers. -/
def answers (steps : List BreakerStep) : List (BreakerEvent × BreakerReply) :=
  (steps.filter fun st => !st.call.isSnapshot).map fun st => (st.call, st.reply)

/-- The breaker of `key`, for whoever looks at it at the instant `now`. -/
def seen (r : CircuitBreakerRegistry) (now : ℤ) (key : String) : Option BreakerInner :=
  (r.lookup key).map fun b => b.effectiveState now

/-- **Snapshots are observers only.** Wherever snapshots are put between the calls, the
calls are answered the same, and at every point of the run every breaker looks the same
from then on. -/
def SnapshotsObserve (calls : List BreakerEvent) : Prop :=
  ∀ events, Timed events → withoutSnapshots events = calls →
    answers (history events) = answers (history calls) ∧
    ∀ pre post now key, events = pre ++ post → (∀ e ∈ pre, e.now ≤ now) →
      (after pre).seen now key = (after (withoutSnapshots pre)).seen now key

/-- **No outcome comes late.** None is recorded on a breaker that still stands in `Open`
although its cooldown is over. -/
def NoLateOutcome (calls : List BreakerEvent) : Prop :=
  ∀ pre e post key op b, calls = pre ++ e :: post → e.call = .on key op → op.isOutcome = true →
    (after pre).lookup key = some b → ¬ b.Cooled e.now

end CircuitBreakerRegistry

/-! ## The two runs, breaker by breaker -/

namespace BreakerInner

variable {a b : BreakerInner} {now later : ℤ}

/-- An elapsed cooldown stays elapsed. -/
theorem Cooled.mono (h : b.Cooled now) (hle : now ≤ later) : b.Cooled later := by
  obtain ⟨hstate, opened, hopened, helapsed⟩ := h
  exact ⟨hstate, opened, hopened, by omega⟩

/-- The breaker `a` is `b`, or `b` with its elapsed cooldown taken into account. -/
def Ahead (now : ℤ) (a b : BreakerInner) : Prop :=
  a = b ∨ (b.Cooled now ∧ a = { b with state := .halfOpen })

theorem Ahead.mono (h : Ahead now a b) (hle : now ≤ later) : Ahead later a b :=
  h.imp_right fun hcool => ⟨hcool.1.mono hle, hcool.2⟩

/-- Whoever looks sees no difference. -/
theorem Ahead.effectiveState (h : Ahead now a b) : a.effectiveState now = b.effectiveState now := by
  rcases h with rfl | ⟨hcool, rfl⟩
  · rfl
  · rcases b.effectiveState_cases now with ⟨-, heq⟩ | ⟨hnot, -⟩
    · rw [heq, BreakerInner.effectiveState, if_neg]
      rintro ⟨hstate, -⟩
      cases hstate
    · exact absurd hcool hnot

/-- Looking puts a breaker ahead at most. -/
theorem Ahead.look (h : Ahead now a b) : Ahead now (a.effectiveState now) b := by
  rw [h.effectiveState]
  rcases b.effectiveState_cases now with ⟨hcool, heq⟩ | ⟨-, heq⟩
  · rw [heq]
    exact Or.inr ⟨hcool, rfl⟩
  · rw [heq]
    exact Or.inl rfl

/-- Before an outcome that is not late the breakers are the same. -/
theorem Ahead.eq_of_not_cooled (h : Ahead now a b) (hwarm : ¬ b.Cooled now) : a = b :=
  h.resolve_right fun hcool => hwarm hcool.1

/-- An operation that is no snapshot, and no late outcome, keeps the breakers related. -/
theorem Ahead.did (h : Ahead now a b) {op : Option BreakerOp} (hop : op ≠ some .snapshot)
    (hwarm : ∀ o, op = some o → o.isOutcome = true → ¬ b.Cooled now) :
    Ahead now (a.did now op) (b.did now op) := by
  rcases op with _ | op
  · exact h
  · cases op with
    | recordFailure reason =>
      rw [h.eq_of_not_cooled (hwarm _ rfl rfl)]
      exact Or.inl rfl
    | recordSuccess =>
      rw [h.eq_of_not_cooled (hwarm _ rfl rfl)]
      exact Or.inl rfl
    | allows => exact Or.inl h.effectiveState
    | snapshot => exact absurd rfl hop
    | forceOpen reason =>
      refine Or.inl ?_
      rcases h with rfl | ⟨-, rfl⟩ <;> rfl
    | forceClose =>
      refine Or.inl ?_
      rcases h with rfl | ⟨-, rfl⟩ <;> rfl

end BreakerInner

namespace CircuitBreakerRegistry

/-- Breaker by breaker, the registry `r` is ahead of `r'` at most. -/
def AheadAll (now : ℤ) (r r' : CircuitBreakerRegistry) : Prop :=
  ∀ key, (r.lookup key = none ∧ r'.lookup key = none) ∨
    ∃ a b, r.lookup key = some a ∧ r'.lookup key = some b ∧ BreakerInner.Ahead now a b

variable {r r' : CircuitBreakerRegistry} {now later : ℤ}

theorem AheadAll.mono (h : AheadAll now r r') (hle : now ≤ later) : AheadAll later r r' := by
  intro key
  rcases h key with hnone | ⟨a, b, ha, hb, hab⟩
  · exact Or.inl hnone
  · exact Or.inr ⟨a, b, ha, hb, hab.mono hle⟩

theorem AheadAll.seen (h : AheadAll now r r') (key : String) :
    r.seen now key = r'.seen now key := by
  rw [CircuitBreakerRegistry.seen, CircuitBreakerRegistry.seen]
  rcases h key with ⟨ha, hb⟩ | ⟨a, b, ha, hb, hab⟩
  · rw [ha, hb]
  · rw [ha, hb, Option.map_some, Option.map_some, hab.effectiveState]

/-- A snapshot asks for nothing, or for a look. -/
theorem asks_of_isSnapshot {e : BreakerEvent} (h : e.isSnapshot = true) (key : String) :
    e.call.asks key = none ∨ e.call.asks key = some .snapshot := by
  obtain ⟨at', call⟩ := e
  cases call with
  | register key' level config => cases h
  | allSnapshots => exact Or.inr rfl
  | on key' op =>
    cases op with
    | snapshot =>
      rw [BreakerCall.asks]
      by_cases hkey : key' = key
      · exact Or.inr (if_pos hkey)
      · exact Or.inl (if_neg hkey)
    | recordFailure reason => cases h
    | recordSuccess => cases h
    | allows => cases h
    | forceOpen reason => cases h
    | forceClose => cases h

/-- What a call that is no snapshot asks of a breaker, it asks by name. -/
theorem asks_of_not_isSnapshot {e : BreakerEvent} (h : e.isSnapshot = false) {key : String}
    {op : BreakerOp} (hop : e.call.asks key = some op) :
    e.call = .on key op ∧ op ≠ .snapshot := by
  obtain ⟨at', call⟩ := e
  cases call with
  | register key' level config => cases hop
  | allSnapshots => cases h
  | on key' op' =>
    rw [BreakerCall.asks] at hop
    by_cases hkey : key' = key
    · rw [if_pos hkey] at hop
      cases hop
      refine ⟨by rw [hkey], ?_⟩
      rintro rfl
      cases h
    · rw [if_neg hkey] at hop
      cases hop

/-- No snapshot makes a breaker. -/
theorem lookup_snapshot_none {e : BreakerEvent} (h : e.isSnapshot = true) {key : String}
    (hnone : r.lookup key = none) : (r.exec e).2.lookup key = none := by
  rcases lookup_exec_of_none hnone with hstill | ⟨level, config, hcall, -⟩
  · exact hstill
  · rw [BreakerEvent.isSnapshot, hcall] at h
    cases h

/-- The run with snapshots takes one. -/
theorem AheadAll.snapshot {e : BreakerEvent} (h : AheadAll e.now r r')
    (he : e.isSnapshot = true) : AheadAll e.now (r.exec e).2 r' := by
  intro key
  rcases h key with ⟨ha, hb⟩ | ⟨a, b, ha, hb, hab⟩
  · exact Or.inl ⟨lookup_snapshot_none he ha, hb⟩
  · refine Or.inr ⟨_, b, lookup_exec e ha, hb, ?_⟩
    rcases asks_of_isSnapshot he key with hasks | hasks
    · rw [hasks]
      exact hab
    · rw [hasks]
      exact hab.look

/-- Both runs take a call. -/
theorem AheadAll.exec {e : BreakerEvent} (h : AheadAll e.now r r') (he : e.isSnapshot = false)
    (hwarm : ∀ key op b, e.call = .on key op → op.isOutcome = true → r'.lookup key = some b →
      ¬ b.Cooled e.now) : AheadAll e.now (r.exec e).2 (r'.exec e).2 := by
  intro key
  rcases h key with ⟨ha, hb⟩ | ⟨a, b, ha, hb, hab⟩
  · by_cases hreg : ∃ level config, e.call = .register key level config
    · obtain ⟨level, config, hcall⟩ := hreg
      have hnew : ∀ r : CircuitBreakerRegistry, r.lookup key = none →
          (r.exec e).2.lookup key = some (BreakerInner.new level config) := by
        intro r hnone
        rw [CircuitBreakerRegistry.exec, hcall]
        change (r.register key level config).lookup key = _
        rw [register, hnone]
        exact AList.lookup_insert r
      exact Or.inr ⟨_, _, hnew r ha, hnew r' hb, Or.inl rfl⟩
    · refine Or.inl ⟨?_, ?_⟩
      · rcases lookup_exec_of_none (e := e) ha with hnone | ⟨level, config, hcall, -⟩
        · exact hnone
        · exact absurd ⟨level, config, hcall⟩ hreg
      · rcases lookup_exec_of_none (e := e) hb with hnone | ⟨level, config, hcall, -⟩
        · exact hnone
        · exact absurd ⟨level, config, hcall⟩ hreg
  · refine Or.inr ⟨_, _, lookup_exec e ha, lookup_exec e hb, hab.did ?_ ?_⟩
    · intro hsnapshot
      exact (asks_of_not_isSnapshot he hsnapshot).2 rfl
    · intro op hop houtcome
      exact hwarm key op b (asks_of_not_isSnapshot he hop).1 houtcome hb

/-- The answers are the same. -/
theorem AheadAll.reply {e : BreakerEvent} (h : AheadAll e.now r r') (he : e.isSnapshot = false)
    (hwarm : ∀ key op b, e.call = .on key op → op.isOutcome = true → r'.lookup key = some b →
      ¬ b.Cooled e.now) : (r.exec e).1 = (r'.exec e).1 := by
  obtain ⟨now, call⟩ := e
  cases call with
  | register key level config => rfl
  | allSnapshots => cases he
  | on key op =>
    cases op with
    | recordSuccess => rfl
    | forceOpen reason => rfl
    | forceClose => rfl
    | snapshot => cases he
    | recordFailure reason =>
      change BreakerReply.tripped (r.recordFailure now key reason).1 =
        .tripped (r'.recordFailure now key reason).1
      rcases h key with ⟨ha, hb⟩ | ⟨a, b, ha, hb, hab⟩
      · rw [recordFailure, recordFailure, getMut, getMut, ha, hb]
      · rw [recordFailure, recordFailure, getMut_reply ha, getMut_reply hb,
          hab.eq_of_not_cooled (hwarm key _ b rfl rfl hb)]
    | allows =>
      change BreakerReply.allowed (r.allows now key).1 = .allowed (r'.allows now key).1
      rcases h key with ⟨ha, hb⟩ | ⟨a, b, ha, hb, hab⟩
      · rw [allows, allows, getMut, getMut, ha, hb]
      · rw [allows, allows, getMut_reply ha, getMut_reply hb]
        have hseen : a.effectiveState now = b.effectiveState now := hab.effectiveState
        rw [hseen]

/-! ## The two runs, call by call -/

theorem withoutSnapshots_append (l l' : List BreakerEvent) :
    withoutSnapshots (l ++ l') = withoutSnapshots l ++ withoutSnapshots l' :=
  List.filter_append ..

theorem withoutSnapshots_concat_of_snapshot {e : BreakerEvent} (he : e.isSnapshot = true)
    (events : List BreakerEvent) : withoutSnapshots (events ++ [e]) = withoutSnapshots events := by
  rw [withoutSnapshots_append, withoutSnapshots, withoutSnapshots,
    List.filter_cons_of_neg (by simp [he]), List.filter_nil, List.append_nil]

theorem withoutSnapshots_concat {e : BreakerEvent} (he : e.isSnapshot = false)
    (events : List BreakerEvent) :
    withoutSnapshots (events ++ [e]) = withoutSnapshots events ++ [e] := by
  rw [withoutSnapshots_append]
  congr 1
  exact List.filter_cons_of_pos (by simp [he])

theorem answers_append (steps more : List BreakerStep) :
    answers (steps ++ more) = answers steps ++ answers more := by
  rw [answers, List.filter_append, List.map_append]
  rfl

theorem answers_trace_cons (r : CircuitBreakerRegistry) (e : BreakerEvent)
    (events : List BreakerEvent) :
    answers (Machine.trace exec r (e :: events)) =
      answers [Machine.stepAt exec r e] ++ answers (Machine.trace exec (r.exec e).2 events) :=
  answers_append [Machine.stepAt exec r e] _

theorem answers_stepAt_of_snapshot (r : CircuitBreakerRegistry) {e : BreakerEvent}
    (he : e.isSnapshot = true) : answers [Machine.stepAt exec r e] = [] := by
  rw [answers, List.filter_cons_of_neg]
  · rfl
  · change ¬ (!e.isSnapshot) = true
    simp [he]

theorem answers_stepAt (r : CircuitBreakerRegistry) {e : BreakerEvent}
    (he : e.isSnapshot = false) : answers [Machine.stepAt exec r e] = [(e, (r.exec e).1)] := by
  rw [answers, List.filter_cons_of_pos]
  · rfl
  · change (!e.isSnapshot) = true
    simp [he]

theorem NoLateOutcome.of_append {calls more : List BreakerEvent}
    (h : NoLateOutcome (calls ++ more)) : NoLateOutcome calls := by
  intro pre e post key op b hsplit
  refine h pre e (post ++ more) key op b ?_
  rw [hsplit, List.append_assoc, List.cons_append]

/-- Without late outcomes, the run with snapshots is ahead at most and answers the
same. -/
theorem aheadAll_after (events : List BreakerEvent) (htimed : Timed events)
    (hwarm : NoLateOutcome (withoutSnapshots events)) :
    (∀ now, (∀ e ∈ events, e.now ≤ now) →
      AheadAll now (after events) (after (withoutSnapshots events))) ∧
    answers (history events) = answers (history (withoutSnapshots events)) := by
  induction events using List.reverseRecOn with
  | nil => exact ⟨fun now _ key => Or.inl ⟨rfl, rfl⟩, rfl⟩
  | append_singleton events e ih =>
    obtain ⟨htimed', -, hlast⟩ := List.pairwise_append.mp htimed
    have hnow : ∀ e' ∈ events, e'.now ≤ e.now := fun e' he' =>
      hlast e' he' e (List.mem_singleton_self e)
    rcases he : e.isSnapshot with _ | _
    · rw [withoutSnapshots_concat he] at hwarm ⊢
      obtain ⟨hahead, hanswers⟩ := ih htimed' hwarm.of_append
      have hready : ∀ key op b, e.call = .on key op → op.isOutcome = true →
          (after (withoutSnapshots events)).lookup key = some b → ¬ b.Cooled e.now :=
        fun key op b => hwarm (withoutSnapshots events) e [] key op b rfl
      refine ⟨fun now hall => ?_, ?_⟩
      · rw [after_concat, after_concat]
        exact ((hahead e.now hnow).exec he hready).mono (hall e (by simp))
      · rw [history_concat, history_concat, answers_append, answers_append, hanswers,
          answers_stepAt _ he, answers_stepAt _ he, (hahead e.now hnow).reply he hready]
    · rw [withoutSnapshots_concat_of_snapshot he] at hwarm ⊢
      obtain ⟨hahead, hanswers⟩ := ih htimed' hwarm
      refine ⟨fun now hall => ?_, ?_⟩
      · rw [after_concat]
        exact ((hahead e.now hnow).snapshot he).mono (hall e (by simp))
      · rw [history_concat, answers_append, answers_stepAt_of_snapshot _ he, List.append_nil,
          hanswers]

theorem NoLateOutcome.snapshotsObserve {calls : List BreakerEvent} (h : NoLateOutcome calls) :
    SnapshotsObserve calls := by
  rintro events htimed rfl
  refine ⟨(aheadAll_after events htimed h).2, ?_⟩
  rintro pre post now key rfl hnow
  rw [withoutSnapshots_append] at h
  exact ((aheadAll_after pre (List.pairwise_append.mp htimed).1 h.of_append).1 now hnow).seen key

/-! ## A late outcome tells the runs apart -/

/-- A look at the breaker just before a call. -/
def withLook (pre : List BreakerEvent) (key : String) (e : BreakerEvent)
    (post : List BreakerEvent) : List BreakerEvent :=
  pre ++ ⟨e.now, .on key .snapshot⟩ :: e :: post

theorem timed_withLook {pre post : List BreakerEvent} {e : BreakerEvent} (key : String)
    (h : Timed (pre ++ e :: post)) : Timed (withLook pre key e post) := by
  obtain ⟨hpre, hpost, hcross⟩ := List.pairwise_append.mp h
  refine List.pairwise_append.mpr ⟨hpre, List.pairwise_cons.mpr ⟨fun e' he' => ?_, hpost⟩,
    fun e' he' e'' he'' => ?_⟩
  · rcases List.mem_cons.mp he' with rfl | he'
    · exact le_rfl
    · exact List.rel_of_pairwise_cons hpost he'
  · rcases List.mem_cons.mp he'' with rfl | he''
    · exact hcross e' he' e List.mem_cons_self
    · exact hcross e' he' e'' he''

theorem withoutSnapshots_withLook {pre post : List BreakerEvent} {e : BreakerEvent} (key : String)
    (h : ∀ e' ∈ pre ++ e :: post, e'.isSnapshot = false) :
    withoutSnapshots (withLook pre key e post) = pre ++ e :: post := by
  have hall : withoutSnapshots (pre ++ e :: post) = pre ++ e :: post :=
    List.filter_eq_self.mpr fun e' he' => by simp [h e' he']
  rw [withLook, withoutSnapshots_append]
  rw [withoutSnapshots_append] at hall
  rw [← hall]
  congr 1

/-- After the look a cooled breaker is half-open. -/
theorem lookup_look {pre : List BreakerEvent} {key : String} {b : BreakerInner} {now : ℤ}
    (hb : (after pre).lookup key = some b) (hcool : b.Cooled now) :
    ((after pre).exec ⟨now, .on key .snapshot⟩).2.lookup key =
      some { b with state := .halfOpen } := by
  rw [lookup_exec _ hb, BreakerCall.asks, if_pos rfl]
  rcases b.effectiveState_cases now with ⟨-, heq⟩ | ⟨hnot, -⟩
  · rw [BreakerInner.did, heq]
  · exact absurd hcool hnot

/-- A late failure is answered differently. -/
theorem SnapshotsObserve.not_late_failure {calls : List BreakerEvent}
    (h : SnapshotsObserve calls) (htimed : Timed calls)
    (hbase : ∀ e ∈ calls, e.isSnapshot = false) {pre post : List BreakerEvent} {now : ℤ}
    {key : String} {reason : Option String} {b : BreakerInner}
    (hsplit : calls = pre ++ ⟨now, .on key (.recordFailure reason)⟩ :: post)
    (hb : (after pre).lookup key = some b) : ¬ b.Cooled now := by
  intro hcool
  subst hsplit
  obtain ⟨hanswers, -⟩ := h (withLook pre key ⟨now, .on key (.recordFailure reason)⟩ post)
    (timed_withLook key htimed) (withoutSnapshots_withLook key hbase)
  have htrips : ∀ (r : CircuitBreakerRegistry) (b' : BreakerInner), r.lookup key = some b' →
      (r.exec ⟨now, .on key (.recordFailure reason)⟩).1 =
        .tripped (b'.recordFailure now reason).1 := by
    intro r b' hb'
    change BreakerReply.tripped (r.recordFailure now key reason).1 = _
    rw [recordFailure, getMut_reply hb']
  -- one run records the failure on an open breaker, the other on a half-open one
  have hopen : (b.recordFailure now reason).1 = false := by
    rw [BreakerInner.recordFailure]
    simp [BreakerInner.prune, BreakerInner.push, hcool.1]
  have hhalf : (BreakerInner.recordFailure { b with state := .halfOpen } now reason).1 = true := by
    rw [BreakerInner.recordFailure]
    simp [BreakerInner.prune, BreakerInner.push]
  rw [history, history, withLook, Machine.trace_append, Machine.trace_append, answers_append,
    answers_append, answers_trace_cons, answers_trace_cons, answers_trace_cons,
    answers_stepAt_of_snapshot _ rfl, answers_stepAt _ rfl, answers_stepAt _ rfl] at hanswers
  have hheads := List.append_cancel_left hanswers
  have hreplies : (((after pre).exec ⟨now, .on key .snapshot⟩).2.exec
      ⟨now, .on key (.recordFailure reason)⟩).1 =
        ((after pre).exec ⟨now, .on key (.recordFailure reason)⟩).1 :=
    (Prod.mk.inj (List.cons.inj hheads).1).2
  rw [htrips _ _ (lookup_look hb hcool), htrips _ _ hb, hopen, hhalf] at hreplies
  cases hreplies

/-- A success closes a half-open breaker, and it stays closed when it is looked at. -/
theorem effectiveState_recordSuccess_halfOpen (b : BreakerInner) (now : ℤ) :
    ((BreakerInner.recordSuccess { b with state := .halfOpen } now).effectiveState now).state =
      .closed := by
  rcases BreakerInner.effectiveState_cases
    (BreakerInner.recordSuccess { b with state := .halfOpen } now) now with ⟨⟨hopen, -⟩, -⟩ | ⟨-, heq⟩
  · cases hopen
  · rw [heq]
    rfl

/-- What a success leaves behind, when someone looked just before it. -/
theorem lookup_withLook_recordSuccess {pre : List BreakerEvent} {now : ℤ} {key : String}
    {b : BreakerInner} (hb : (after pre).lookup key = some b) (hcool : b.Cooled now) :
    (after (withLook pre key ⟨now, .on key .recordSuccess⟩ [])).lookup key =
      some (BreakerInner.recordSuccess { b with state := .halfOpen } now) := by
  rw [after, withLook, Machine.run_append]
  change (((after pre).exec ⟨now, .on key .snapshot⟩).2.exec
    ⟨now, .on key .recordSuccess⟩).2.lookup key = _
  rw [lookup_exec _ (lookup_look hb hcool), BreakerCall.asks, if_pos rfl]
  rfl

/-- And when nobody did. -/
theorem lookup_recordSuccess_of_cooled {r : CircuitBreakerRegistry} {now : ℤ} {key : String}
    {b : BreakerInner} (hb : r.lookup key = some b) (hcool : b.Cooled now) :
    (r.exec ⟨now, .on key .recordSuccess⟩).2.lookup key = some (b.prune now) := by
  rw [lookup_exec _ hb, BreakerCall.asks, if_pos rfl]
  rcases b.recordSuccess_cases now with ⟨hhalf, -⟩ | ⟨-, heq⟩
  · cases hcool.1.symm.trans hhalf
  · rw [BreakerInner.did, heq]

/-- A late success closes the breaker in one run only. -/
theorem SnapshotsObserve.not_late_success {calls : List BreakerEvent}
    (h : SnapshotsObserve calls) (htimed : Timed calls)
    (hbase : ∀ e ∈ calls, e.isSnapshot = false) {pre post : List BreakerEvent} {now : ℤ}
    {key : String} {b : BreakerInner}
    (hsplit : calls = pre ++ ⟨now, .on key .recordSuccess⟩ :: post)
    (hb : (after pre).lookup key = some b) : ¬ b.Cooled now := by
  intro hcool
  subst hsplit
  obtain ⟨-, hseen⟩ := h (withLook pre key ⟨now, .on key .recordSuccess⟩ post)
    (timed_withLook key htimed) (withoutSnapshots_withLook key hbase)
  have hsplit : withLook pre key ⟨now, .on key .recordSuccess⟩ post =
      withLook pre key ⟨now, .on key .recordSuccess⟩ [] ++ post := by
    simp [withLook]
  have hnow : ∀ e ∈ withLook pre key ⟨now, .on key .recordSuccess⟩ [], e.now ≤ now := by
    obtain ⟨-, -, hcross⟩ := List.pairwise_append.mp htimed
    intro e he
    rcases List.mem_append.mp he with he | he
    · exact hcross e he _ List.mem_cons_self
    · have hpair : e = ⟨now, .on key .snapshot⟩ ∨ e = ⟨now, .on key .recordSuccess⟩ := by
        simpa using he
      rcases hpair with rfl | rfl <;> exact le_rfl
  have hbase' : ∀ e ∈ pre ++ [(⟨now, .on key .recordSuccess⟩ : BreakerEvent)],
      e.isSnapshot = false := by
    intro e he
    refine hbase e ?_
    rcases List.mem_append.mp he with he | he
    · exact List.mem_append_left _ he
    · rw [List.mem_singleton.mp he]
      simp
  have hlooks := hseen _ post now key hsplit hnow
  rw [withoutSnapshots_withLook key hbase', after_concat] at hlooks
  -- one run has recovered, the other waits for a look
  rw [seen, seen, lookup_withLook_recordSuccess hb hcool, lookup_recordSuccess_of_cooled hb hcool,
    Option.map_some, Option.map_some] at hlooks
  have hstates := congrArg BreakerInner.state (Option.some.inj hlooks)
  rcases (b.prune now).effectiveState_cases now with ⟨-, heq⟩ | ⟨hnot, -⟩
  · rw [effectiveState_recordSuccess_halfOpen, heq] at hstates
    cases hstates
  · exact hnot hcool

/-- **The dashboard.** Snapshots change nothing, wherever they are taken, exactly when no
outcome is recorded on a breaker that still stands in `Open` past its cooldown. -/
theorem snapshotsObserve_iff (calls : List BreakerEvent) (htimed : Timed calls)
    (hbase : ∀ e ∈ calls, e.isSnapshot = false) :
    SnapshotsObserve calls ↔ NoLateOutcome calls := by
  refine ⟨fun h => ?_, NoLateOutcome.snapshotsObserve⟩
  rintro pre ⟨now, call⟩ post key op b hsplit rfl houtcome hb
  cases op with
  | recordFailure reason => exact h.not_late_failure htimed hbase hsplit hb
  | recordSuccess => exact h.not_late_success htimed hbase hsplit hb
  | allows => cases houtcome
  | snapshot => cases houtcome
  | forceOpen reason => cases houtcome
  | forceClose => cases houtcome

/-- The breaker trips, its cooldown passes, and then a success comes in. -/
def lateSuccess : List BreakerEvent :=
  [⟨0, .register "pay" .capability ⟨1, 60, 30⟩⟩, ⟨1, .on "pay" (.recordFailure none)⟩,
    ⟨40, .on "pay" .recordSuccess⟩]

/-- A snapshot just before it decides that the breaker recovers. -/
theorem lateSuccess_not_observed : Timed lateSuccess ∧ ¬ SnapshotsObserve lateSuccess := by
  refine ⟨by decide, fun h => ?_⟩
  obtain ⟨-, hseen⟩ := h (withLook (lateSuccess.take 2) "pay" ⟨40, .on "pay" .recordSuccess⟩ [])
    (by decide) (by decide)
  have hsame := hseen _ [] 40 "pay" (List.append_nil _).symm (by decide)
  revert hsame
  decide +kernel

/-- The same, with a request let through before the success. -/
def probedSuccess : List BreakerEvent :=
  lateSuccess.take 2 ++ [⟨40, .on "pay" .allows⟩, ⟨41, .on "pay" .recordSuccess⟩]

theorem snapshotsObserve_iff_probedSuccess :
    Timed probedSuccess ∧ (∀ e ∈ probedSuccess, e.isSnapshot = false) ∧
      (SnapshotsObserve probedSuccess ↔ NoLateOutcome probedSuccess) := by
  have htimed : Timed probedSuccess := by decide
  have hbase : ∀ e ∈ probedSuccess, e.isSnapshot = false := by decide
  exact ⟨htimed, hbase, snapshotsObserve_iff probedSuccess htimed hbase⟩

end CircuitBreakerRegistry

end Aaf
