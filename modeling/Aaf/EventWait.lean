import Aaf.Interleaving
import Aaf.Node

/-!
# Waiting for an event, against the sender

`EventWaitNode::run` (`aaf-runtime`) as a race: any number of nodes wait on one watch channel,
and its sender sends and goes away when it likes. A watch channel keeps the last value only,
with a version; a receiver remembers the version it has seen, and `changed` waits for another.

A node looks at the value first and asks for a change then, and something may be sent in
between. It does not matter: a node that asks while there is a value has not seen its version
(`Fits`), so that it looks again. Hence a wait ends without a value only where there is none
(`wait_ends`), and a value that is not withdrawn is delivered (`event_delivered`).
-/

namespace Aaf

namespace EventWait

open Interleaving

/-- The channel; it is closed when its sender is dropped. -/
structure Channel where
  value : Option Json
  version : ℕ
  closed : Bool

/-- The sender, or how far a node has come. -/
inductive Phase : Type where
  | sender : Phase
  /-- the sender is dropped -/
  | gone : Phase
  /-- before `borrow`, with the version seen -/
  | looking (seen : ℕ) : Phase
  /-- before `changed`, with the version seen -/
  | asking (seen : ℕ) : Phase
  | done (ends : EventWaitEnd) : Phase

/-- What the sender and the nodes do. -/
inductive Act : Type where
  | send (value : Option Json) : Act
  | drop : Act
  /-- `rx.borrow().clone()` -/
  | look : Act
  /-- `rx.changed()`, if it is ready -/
  | changed : Act
  /-- the timeout, if `rx.changed()` is not ready -/
  | elapse : Act

/-- One step of the sender or of a node. -/
def next (_ : ℕ) : Act → Channel → Phase → Option (Channel × Phase)
  | .send value, c, .sender => some (⟨value, c.version + 1, c.closed⟩, .sender)
  | .drop, c, .sender => some ({ c with closed := true }, .gone)
  | .look, c, .looking seen =>
    match c.value with
    | some payload => some (c, .done (.arrived payload))
    | none => some (c, .asking seen)
  | .changed, c, .asking seen =>
    if seen ≠ c.version then some (c, .looking c.version)
    else if c.closed then some (c, .done .closed)
    else none
  | .elapse, c, .asking seen =>
    if seen = c.version ∧ c.closed = false then some (c, .done .timedOut) else none
  | _, _, _ => none

/-- The sender is the call 0; the nodes have receivers that have seen one version or another. -/
def start (value : Option Json) (version : ℕ) (seen : ℕ → ℕ) : Shared Channel Phase :=
  ⟨⟨value, version, false⟩, fun k => if k = 0 then .sender else .looking (seen k)⟩

variable {s t : Shared Channel Phase} {k : ℕ} {events : List (ℕ × Act)}

/-! ## One step -/

theorem next_send_iff {value : Option Json} {c c' : Channel} {p p' : Phase} :
    next k (.send value) c p = some (c', p') ↔
      p = .sender ∧ c' = ⟨value, c.version + 1, c.closed⟩ ∧ p' = .sender := by
  cases p <;> simp [next, eq_comm]

theorem next_drop_iff {c c' : Channel} {p p' : Phase} :
    next k .drop c p = some (c', p') ↔ p = .sender ∧ c' = { c with closed := true } ∧
      p' = .gone := by
  cases p <;> simp [next, eq_comm]

theorem next_look_iff {c c' : Channel} {p p' : Phase} :
    next k .look c p = some (c', p') ↔ ∃ seen, p = .looking seen ∧ c' = c ∧
      ((∃ payload, c.value = some payload ∧ p' = .done (.arrived payload)) ∨
        (c.value = none ∧ p' = .asking seen)) := by
  cases p with
  | looking seen =>
    rw [next]
    rcases c.value with _ | payload <;> simp [eq_comm]
  | _ => simp [next]

theorem next_changed_iff {c c' : Channel} {p p' : Phase} :
    next k .changed c p = some (c', p') ↔ ∃ seen, p = .asking seen ∧ c' = c ∧
      ((seen ≠ c.version ∧ p' = .looking c.version) ∨
        (seen = c.version ∧ c.closed = true ∧ p' = .done .closed)) := by
  cases p with
  | asking seen =>
    rw [next]
    by_cases hseen : seen = c.version
    · subst hseen
      rcases hclosed : c.closed with _ | _ <;> simp [eq_comm]
    · rw [if_pos hseen]
      constructor
      · intro h
        cases h
        exact ⟨seen, rfl, rfl, Or.inl ⟨hseen, rfl⟩⟩
      · rintro ⟨_, h, rfl, ⟨-, rfl⟩ | ⟨heq, -⟩⟩
        · rfl
        · cases h
          exact absurd heq hseen
  | _ => simp [next]

theorem next_elapse_iff {c c' : Channel} {p p' : Phase} :
    next k .elapse c p = some (c', p') ↔ ∃ seen, p = .asking seen ∧ c' = c ∧
      seen = c.version ∧ c.closed = false ∧ p' = .done .timedOut := by
  cases p with
  | asking seen =>
    rw [next]
    by_cases hready : seen = c.version ∧ c.closed = false
    · simp [hready, eq_comm]
    · rw [if_neg hready]
      refine iff_of_false (fun h => by cases h) ?_
      rintro ⟨_, h, -, hseen, hclosed, -⟩
      cases h
      exact hready ⟨hseen, hclosed⟩
  | _ => simp [next]

/-! ## The invariant -/

/-- The sender is the call 0 and there as long as the channel is open; a node has seen some version,
and one that asks while there is a value has not seen its version. -/
def Fits (c : Channel) (k : ℕ) : Phase → Prop
  | .sender => k = 0 ∧ c.closed = false
  | .looking seen => seen ≤ c.version
  | .asking seen => seen ≤ c.version ∧ (c.value.isSome → seen ≠ c.version)
  | .gone => True
  | .done _ => True

def Watching (s : Shared Channel Phase) : Prop := ∀ k, Fits s.value k (s.phase k)

theorem Watching.put {c : Channel} {p : Phase} (hk : Fits c k p)
    (hothers : ∀ j, j ≠ k → Fits c j (s.phase j)) : Watching (s.put k c p) := by
  intro j
  by_cases hjk : j = k
  · subst hjk
    rw [Shared.phase_put_self]
    exact hk
  · rw [s.phase_put_of_ne k c p hjk]
    exact hothers j hjk

/-- Whatever is sent, no node has seen it. -/
theorem Fits.send {c : Channel} {p : Phase} (h : Fits c k p) (value : Option Json) :
    Fits ⟨value, c.version + 1, c.closed⟩ k p := by
  cases p with
  | looking seen => exact Nat.le_succ_of_le h
  | asking seen => exact ⟨Nat.le_succ_of_le h.1, fun _ => Nat.ne_of_lt (Nat.lt_succ_of_le h.1)⟩
  | _ => exact h

theorem Watching.step {e : Act} (h : Watching s) (hstep : Interleaving.step next s (k, e) = .ok t) :
    Watching t := by
  obtain ⟨c, p, hnext, rfl⟩ := step_ok_iff.mp hstep
  have hk := h k
  cases e with
  | send value =>
    obtain ⟨hphase, rfl, rfl⟩ := next_send_iff.mp hnext
    rw [hphase] at hk
    exact .put hk fun j _ => (h j).send value
  | drop =>
    obtain ⟨hphase, rfl, rfl⟩ := next_drop_iff.mp hnext
    rw [hphase] at hk
    refine .put trivial fun j hjk => ?_
    have hj := h j
    rcases hother : s.phase j with _ | _ | seen | seen | ends
    · rw [hother] at hj
      exact absurd (hj.1.trans hk.1.symm) hjk
    all_goals
      rw [hother] at hj
      exact hj
  | look =>
    obtain ⟨seen, hphase, rfl, ⟨payload, -, rfl⟩ | ⟨hnone, rfl⟩⟩ := next_look_iff.mp hnext
    · exact .put trivial fun j _ => h j
    · rw [hphase] at hk
      refine .put ⟨hk, fun hsome => ?_⟩ fun j _ => h j
      rw [hnone] at hsome
      cases hsome
  | changed =>
    obtain ⟨seen, hphase, rfl, ⟨-, rfl⟩ | ⟨-, -, rfl⟩⟩ := next_changed_iff.mp hnext
    · exact .put le_rfl fun j _ => h j
    · exact .put trivial fun j _ => h j
  | elapse =>
    obtain ⟨seen, hphase, rfl, -, -, rfl⟩ := next_elapse_iff.mp hnext
    exact .put trivial fun j _ => h j

/-- A channel with its sender and receivers, as a run finds them. -/
def Started (s : Shared Channel Phase) : Prop :=
  ∃ value version seen, (∀ k, seen k ≤ version) ∧ s = start value version seen

/-- A channel as it is made: nothing on it, and all receivers fresh. -/
theorem started_empty : Started (start none 0 fun _ => 0) := ⟨none, 0, _, fun _ => le_rfl, rfl⟩

theorem Started.watching (h : Started s) : Watching s := by
  obtain ⟨value, version, seen, hseen, rfl⟩ := h
  intro k
  change Fits _ k (if k = 0 then .sender else .looking (seen k))
  by_cases hk : k = 0
  · rw [if_pos hk]
    exact ⟨hk, rfl⟩
  · rw [if_neg hk]
    exact hseen k

theorem Watching.runs (h : Watching s) (hrun : Runs (Interleaving.step next) s events t) :
    Watching t :=
  hrun.invariant h fun _ _ _ _ hs hstep => hs.step hstep

/-! ## How a wait ends -/

/-- How a wait may end while the channel is as it is. -/
def Ended (c : Channel) : EventWaitEnd → Prop
  | .arrived payload => c.value = some payload
  | .closed => c.value = none ∧ c.closed = true
  | .timedOut => c.value = none ∧ c.closed = false

/-- A node waits. -/
def Waiting (p : Phase) : Prop := ∃ seen, p = .looking seen ∨ p = .asking seen

/-- A node that asks and has seen the version asks because there is no value. -/
theorem value_of_asking {seen : ℕ} (h : Watching s) (hphase : s.phase k = .asking seen)
    (hseen : seen = s.value.version) : s.value.value = none := by
  have hk := h k
  rw [hphase] at hk
  rcases hvalue : s.value.value with _ | payload
  · rfl
  · exact absurd hseen (hk.2 (by rw [hvalue]; rfl))

/-- The step with which a node ends. -/
theorem ended_of_step {e : Act} {ends : EventWaitEnd} (h : Watching s)
    (hstep : step next s (k, e) = .ok t) (hbefore : s.phase k ≠ .done ends)
    (hafter : t.phase k = .done ends) : Ended s.value ends := by
  obtain ⟨c, p, hnext, rfl⟩ := step_ok_iff.mp hstep
  rw [Shared.phase_put_self] at hafter
  subst hafter
  cases e with
  | send value =>
    obtain ⟨-, -, hphase⟩ := next_send_iff.mp hnext
    cases hphase
  | drop =>
    obtain ⟨-, -, hphase⟩ := next_drop_iff.mp hnext
    cases hphase
  | look =>
    obtain ⟨_, -, -, ⟨payload, hvalue, hends⟩ | ⟨-, hends⟩⟩ := next_look_iff.mp hnext
    · cases hends
      exact hvalue
    · cases hends
  | changed =>
    obtain ⟨seen, hphase, -, ⟨-, hends⟩ | ⟨hseen, hclosed, hends⟩⟩ := next_changed_iff.mp hnext
    · cases hends
    · cases hends
      exact ⟨value_of_asking h hphase hseen, hclosed⟩
  | elapse =>
    obtain ⟨seen, hphase, -, hseen, hopen, hends⟩ := next_elapse_iff.mp hnext
    cases hends
    exact ⟨value_of_asking h hphase hseen, hopen⟩

/-- Once the channel is closed it stays as it is. -/
theorem value_of_closed (h : Watching s) (hclosed : s.value.closed = true)
    (hrun : Runs (step next) s events t) : t.value = s.value := by
  have hinv : Watching t ∧ t.value = s.value := by
    refine hrun.invariant (I := fun u => Watching u ∧ u.value = s.value) ⟨h, rfl⟩ ?_
    rintro u u' ⟨k, e⟩ - ⟨hu, hvalue⟩ hstep
    refine ⟨hu.step hstep, ?_⟩
    have hgone : u.phase k ≠ .sender := by
      intro hphase
      have hk := hu k
      rw [hphase] at hk
      rw [← hvalue, hk.2] at hclosed
      cases hclosed
    obtain ⟨c, p, hnext, rfl⟩ := step_ok_iff.mp hstep
    cases e with
    | send value => exact absurd (next_send_iff.mp hnext).1 hgone
    | drop => exact absurd (next_drop_iff.mp hnext).1 hgone
    | look =>
      obtain ⟨_, -, rfl, -⟩ := next_look_iff.mp hnext
      exact hvalue
    | changed =>
      obtain ⟨_, -, rfl, -⟩ := next_changed_iff.mp hnext
      exact hvalue
    | elapse =>
      obtain ⟨_, -, rfl, -⟩ := next_elapse_iff.mp hnext
      exact hvalue
  exact hinv.2

/-- **No wait ends without cause.** A node returns what was on the channel when it looked; it
gives up only when nothing was there, and on a closed channel nothing ever will be. -/
theorem wait_ends (hs : Started s) (hrun : Runs (step next) s events t) {ends : EventWaitEnd}
    (hdone : t.phase k = .done ends) :
    (∃ before act after u, events = before ++ (k, act) :: after ∧
      Runs (step next) s before u ∧ Waiting (u.phase k) ∧ Ended u.value ends) ∧
      (ends = .closed → t.value.value = none ∧ t.value.closed = true) := by
  have hstart : s.phase k ≠ .done ends := by
    obtain ⟨value, version, seen, -, rfl⟩ := hs
    change (if k = 0 then Phase.sender else .looking (seen k)) ≠ _
    split_ifs <;> exact fun h => by cases h
  obtain ⟨before, act, after, u, u', hevents, hbefore, hstep, hafter, hne, hends⟩ :=
    Runs.entered (P := fun p => p = .done ends) hrun hstart hdone
  have hu := hs.watching.runs hbefore
  have hended : Ended u.value ends := ended_of_step hu hstep hne hends
  refine ⟨⟨before, act, after, u, hevents, hbefore, ?_, hended⟩, ?_⟩
  · obtain ⟨c, p, hnext, rfl⟩ := step_ok_iff.mp hstep
    rw [Shared.phase_put_self] at hends
    subst hends
    cases act with
    | send value => cases (next_send_iff.mp hnext).2.2
    | drop => cases (next_drop_iff.mp hnext).2.2
    | look =>
      obtain ⟨seen, hphase, -⟩ := next_look_iff.mp hnext
      exact ⟨seen, Or.inl hphase⟩
    | changed =>
      obtain ⟨seen, hphase, -⟩ := next_changed_iff.mp hnext
      exact ⟨seen, Or.inr hphase⟩
    | elapse =>
      obtain ⟨seen, hphase, -⟩ := next_elapse_iff.mp hnext
      exact ⟨seen, Or.inr hphase⟩
  · rintro rfl
    have hlast : Runs (step next) u ((k, act) :: after) t := Runs.cons_iff.mpr ⟨u', hstep, hafter⟩
    rw [value_of_closed hu hended.2 hlast]
    exact hended

/-- The sender goes away without a word. -/
theorem wait_ends_unsent :
    ∃ t, Runs (step next) (start none 0 fun _ => 0) [(1, .look), (0, .drop), (1, .changed)] t ∧
      t.phase 1 = .done .closed ∧ t.value.value = none := by
  obtain ⟨t, hrun, hdone⟩ : ∃ t, Runs (step next) (start none 0 fun _ => 0)
      [(1, .look), (0, .drop), (1, .changed)] t ∧ t.phase 1 = .done .closed := ⟨_, rfl, rfl⟩
  exact ⟨t, hrun, hdone, ((wait_ends started_empty hrun hdone).2 rfl).1⟩

/-! ## No event is lost -/

/-- A value that is only ever replaced by another is there after every step. -/
theorem isSome_of_step {e : Act} (hstep : step next s (k, e) = .ok t)
    (hvalue : s.value.value.isSome) (hsend : ∀ value, e = .send value → value.isSome) :
    t.value.value.isSome := by
  obtain ⟨c, p, hnext, rfl⟩ := step_ok_iff.mp hstep
  cases e with
  | send value =>
    obtain ⟨-, rfl, -⟩ := next_send_iff.mp hnext
    exact hsend value rfl
  | drop =>
    obtain ⟨-, rfl, -⟩ := next_drop_iff.mp hnext
    exact hvalue
  | look =>
    obtain ⟨_, -, rfl, -⟩ := next_look_iff.mp hnext
    exact hvalue
  | changed =>
    obtain ⟨_, -, rfl, -⟩ := next_changed_iff.mp hnext
    exact hvalue
  | elapse =>
    obtain ⟨_, -, rfl, -⟩ := next_elapse_iff.mp hnext
    exact hvalue

/-- A node that waits while there is a value goes on waiting, or has it. -/
theorem waiting_step {e : Act} (h : Watching s) (hvalue : s.value.value.isSome)
    (hk : Waiting (s.phase k)) (hstep : step next s (k, e) = .ok t) :
    Waiting (t.phase k) ∨ ∃ payload, t.phase k = .done (.arrived payload) := by
  obtain ⟨c, p, hnext, rfl⟩ := step_ok_iff.mp hstep
  rw [Shared.phase_put_self]
  cases e with
  | send value =>
    obtain ⟨seen, hphase⟩ := hk
    rw [(next_send_iff.mp hnext).1] at hphase
    rcases hphase with hphase | hphase <;> cases hphase
  | drop =>
    obtain ⟨seen, hphase⟩ := hk
    rw [(next_drop_iff.mp hnext).1] at hphase
    rcases hphase with hphase | hphase <;> cases hphase
  | look =>
    obtain ⟨seen, -, -, ⟨payload, -, rfl⟩ | ⟨-, rfl⟩⟩ := next_look_iff.mp hnext
    · exact Or.inr ⟨payload, rfl⟩
    · exact Or.inl ⟨seen, Or.inr rfl⟩
  | changed =>
    obtain ⟨seen, hphase, -, ⟨-, rfl⟩ | ⟨hseen, -, rfl⟩⟩ := next_changed_iff.mp hnext
    · exact Or.inl ⟨_, Or.inl rfl⟩
    · rw [value_of_asking h hphase hseen] at hvalue
      cases hvalue
  | elapse =>
    obtain ⟨seen, hphase, -, hseen, -, rfl⟩ := next_elapse_iff.mp hnext
    rw [value_of_asking h hphase hseen] at hvalue
    cases hvalue

/-- Left alone, a node that waits while there is a value has it after two steps. -/
theorem exists_arrived (h : Watching s) {payload : Json} (hvalue : s.value.value = some payload)
    (hk : Waiting (s.phase k)) :
    ∃ own t, (∀ event ∈ own, event.1 = k) ∧ own.length ≤ 2 ∧ Runs (step next) s own t ∧
      t.phase k = .done (.arrived payload) := by
  have hlook : ∀ {u : Shared Channel Phase} {seen : ℕ}, u.phase k = .looking seen →
      u.value.value = some payload →
      step next u (k, .look) = .ok (u.put k u.value (.done (.arrived payload))) :=
    fun hphase hvalue => step_ok_iff.mpr ⟨_, _,
      next_look_iff.mpr ⟨_, hphase, rfl, Or.inl ⟨payload, hvalue, rfl⟩⟩, rfl⟩
  obtain ⟨seen, hphase | hphase⟩ := hk
  · exact ⟨[(k, .look)], _, by simp, by simp,
      Runs.cons_iff.mpr ⟨_, hlook hphase hvalue, Runs.nil _⟩, Shared.phase_put_self ..⟩
  · have hseen : seen ≠ s.value.version := by
      intro hseen
      rw [value_of_asking h hphase hseen] at hvalue
      cases hvalue
    have hchanged : step next s (k, .changed) =
        .ok (s.put k s.value (.looking s.value.version)) := step_ok_iff.mpr ⟨_, _,
      next_changed_iff.mpr ⟨seen, hphase, rfl, Or.inl ⟨hseen, rfl⟩⟩, rfl⟩
    exact ⟨[(k, .changed), (k, .look)], _, by simp, by simp, Runs.cons_iff.mpr ⟨_, hchanged,
      Runs.cons_iff.mpr ⟨_, hlook (Shared.phase_put_self ..) hvalue, Runs.nil _⟩⟩,
      Shared.phase_put_self ..⟩

/-- **No event is lost.** Once there is a value, and as long as it is not withdrawn, a node that
waits neither times out nor finds the channel closed: it has the value, or two steps of its own
are all that it needs. -/
theorem event_delivered (hs : Started s) (hrun : Runs (step next) s events t)
    (hvalue : t.value.value.isSome) (hk : Waiting (t.phase k)) {more : List (ℕ × Act)}
    {u : Shared Channel Phase} (hmore : Runs (step next) t more u)
    (hsends : ∀ j value, (j, Act.send value) ∈ more → value.isSome) :
    (∃ payload, u.phase k = .done (.arrived payload)) ∨
      ∃ payload own u', u.value.value = some payload ∧ (∀ event ∈ own, event.1 = k) ∧
        own.length ≤ 2 ∧ Runs (step next) u own u' ∧ u'.phase k = .done (.arrived payload) := by
  have hinv : Watching u ∧ u.value.value.isSome ∧
      (Waiting (u.phase k) ∨ ∃ payload, u.phase k = .done (.arrived payload)) := by
    refine hmore.invariant (I := fun u => Watching u ∧ u.value.value.isSome ∧
      (Waiting (u.phase k) ∨ ∃ payload, u.phase k = .done (.arrived payload)))
      ⟨hs.watching.runs hrun, hvalue, Or.inl hk⟩ ?_
    rintro v v' ⟨j, e⟩ hmem ⟨hv, hsome, hphase⟩ hstep
    refine ⟨hv.step hstep, isSome_of_step hstep hsome fun value he => ?_, ?_⟩
    · subst he
      exact hsends j value hmem
    by_cases hj : k = j
    · subst hj
      rcases hphase with hwaiting | ⟨payload, hdone⟩
      · exact waiting_step hv hsome hwaiting hstep
      · -- a node that is done takes no step
        obtain ⟨c, p, hnext, -⟩ := step_ok_iff.mp hstep
        rw [hdone] at hnext
        cases e <;> cases hnext
    · rw [phase_of_ne hstep hj]
      exact hphase
  obtain ⟨hu, hsome, hwaiting | harrived⟩ := hinv
  · obtain ⟨payload, hpayload⟩ := Option.isSome_iff_exists.mp hsome
    obtain ⟨own, u', hown, hlength, hruns, hphase⟩ := exists_arrived hu hpayload hwaiting
    exact Or.inr ⟨payload, own, u', hpayload, hown, hlength, hruns, hphase⟩
  · exact Or.inl harrived

/-- The sender goes away after the event, before the node has asked for a change. -/
theorem event_delivered_late :
    ∃ t u, Runs (step next) (start none 0 fun _ => 0) [(1, .look), (0, .send (some .null))] t ∧
      Runs (step next) t [(0, .drop)] u ∧ u.phase 1 = .asking 0 ∧
      ((∃ payload, u.phase 1 = .done (.arrived payload)) ∨
        ∃ payload own u', u.value.value = some payload ∧ (∀ event ∈ own, event.1 = 1) ∧
          own.length ≤ 2 ∧ Runs (step next) u own u' ∧ u'.phase 1 = .done (.arrived payload)) := by
  obtain ⟨t, hrun, hvalue, hk⟩ : ∃ t, Runs (step next) (start none 0 fun _ => 0)
      [(1, .look), (0, .send (some .null))] t ∧ t.value.value.isSome ∧ t.phase 1 = .asking 0 :=
    ⟨_, rfl, rfl, rfl⟩
  obtain ⟨u, hmore, hu⟩ : ∃ u, Runs (step next) t [(0, .drop)] u ∧ u.phase 1 = .asking 0 := by
    cases hrun
    exact ⟨_, rfl, rfl⟩
  exact ⟨t, u, hrun, hmore, hu,
    event_delivered started_empty hrun hvalue ⟨0, Or.inr hk⟩ hmore (by simp)⟩

end EventWait

end Aaf
