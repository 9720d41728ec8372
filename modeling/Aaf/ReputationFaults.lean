import Aaf.Registration

/-!
# Reputation updates over a store that may fail

`Registry::update_reputation` (`aaf-registry`) takes the rate limiter's slot first and goes
to the store afterwards, so a call can fail with the slot already taken. A backend is a map
whose operations may fail at any call; an operation that fails changes nothing.

`leavesNoTrace_iff`: a failed update is as if it had not been made exactly when the rate
limiter refused it. `updates_apart`: successful updates of one id keep their distance, in
every run and whatever the clock does.
-/

namespace Aaf

/-- What the backend does to one update: the failures of its `get` and of its `upsert`. -/
structure StoreFaults where
  get : Option StorageError
  upsert : Option StorageError
  deriving DecidableEq, Repr

/-- A backend that works. -/
def StoreFaults.none : StoreFaults := ⟨.none, .none⟩

/-- A call of `update_reputation`, with the clock it reads and what the backend does. -/
structure ReputationUpdate where
  now : ℤ
  faults : StoreFaults
  id : CapabilityId
  newScore : F64
  evidence : LearnedRuleRef

namespace RatedRegistry

open RegistrationServices (store_get_of_none store_get_of_some)

/-- `Registry::update_reputation`. -/
def update (r : RatedRegistry) (u : ReputationUpdate) : Except RegistryError Unit × RatedRegistry :=
  match r.rateLimit u.now u.id with
  | (.error e, r) => (.error e, r)
  | (.ok (), r) =>
    match u.faults.get with
    | some e => (.error (.storage e), r)
    | none =>
      match r.store.get u.id with
      | .error e => (.error e, r)
      | .ok cap =>
        match u.faults.upsert with
        | some e => (.error (.storage e), r)
        | none => (.ok (), { r with store := r.store.upsert (cap.rescored u.newScore u.evidence) })

/-- With a backend that works this is the update in memory. -/
theorem update_eq_updateReputation (r : RatedRegistry) (now : ℤ) (id : CapabilityId)
    (newScore : F64) (evidence : LearnedRuleRef) :
    r.update ⟨now, .none, id, newScore, evidence⟩ =
      r.updateReputation now id newScore evidence := rfl

/-- A call that writes, with the failure of the operation it ends in. -/
inductive FallibleCall : Type where
  | register (cap : CapabilityContract) (fault : Option StorageError) : FallibleCall
  | deregister (id : CapabilityId) (fault : Option StorageError) : FallibleCall
  | update (u : ReputationUpdate) : FallibleCall

/-- `Registry::register`: the contract is validated before the backend is asked. -/
def register (r : RatedRegistry) (cap : CapabilityContract) (fault : Option StorageError) :
    Except RegistryError Unit × RatedRegistry :=
  match cap.validate with
  | .error e => (.error (.invalid e), r)
  | .ok () =>
    match fault with
    | some e => (.error (.storage e), r)
    | none => (.ok (), { r with store := r.store.upsert cap })

/-- `Registry::deregister`. -/
def deregister (r : RatedRegistry) (id : CapabilityId) (fault : Option StorageError) :
    Except RegistryError Unit × RatedRegistry :=
  match fault with
  | some e => (.error (.storage e), r)
  | none => (.ok (), { r with store := r.store.erase id })

/-- One call. -/
def exec (r : RatedRegistry) : FallibleCall → Except RegistryError Unit × RatedRegistry
  | .register cap fault => r.register cap fault
  | .deregister id fault => r.deregister id fault
  | .update u => r.update u

/-- The call was as good as not made: whatever is called later, the replies and the stored
capabilities are the same. -/
def LeavesNoTrace (r : RatedRegistry) (u : ReputationUpdate) : Prop :=
  ∀ later : List FallibleCall,
    (Machine.run exec (r.update u).2 later).store = (Machine.run exec r later).store ∧
    (Machine.trace exec (r.update u).2 later).map Machine.Step.reply =
      (Machine.trace exec r later).map Machine.Step.reply

variable {r : RatedRegistry} {u : ReputationUpdate}

/-! ## One update -/

/-- The slot of the id is taken at the instant of the call. -/
def taken (r : RatedRegistry) (u : ReputationUpdate) : RatedRegistry :=
  { r with reputationRate := r.reputationRate.insert u.id u.now }

theorem update_of_tooSoon (h : r.TooSoon u.now u.id) :
    r.update u = (.error (.rateLimited u.id.raw), r) := by
  rw [update, rateLimit, if_pos h]

/-- Past the rate limiter the slot is taken, whatever comes of the update. -/
theorem update_of_not_tooSoon (h : ¬ r.TooSoon u.now u.id) :
    ((∃ e, (r.update u).1 = .error (.storage e)) ∧ (r.update u).2 = r.taken u) ∨
    ∃ cap, r.store.lookup u.id = some cap ∧ (r.update u).1 = .ok () ∧
      (r.update u).2 =
        { r.taken u with store := r.store.upsert (cap.rescored u.newScore u.evidence) } := by
  simp only [update, rateLimit, if_neg h]
  rcases hget : u.faults.get with _ | e
  · rcases hstored : r.store.lookup u.id with _ | cap
    · simp only [store_get_of_none hstored]
      exact Or.inl ⟨⟨_, rfl⟩, rfl⟩
    · simp only [store_get_of_some hstored]
      rcases hupsert : u.faults.upsert with _ | e
      · exact Or.inr ⟨cap, rfl, rfl, rfl⟩
      · exact Or.inl ⟨⟨e, rfl⟩, rfl⟩
  · exact Or.inl ⟨⟨e, rfl⟩, rfl⟩

theorem tooSoon_taken (r : RatedRegistry) (u : ReputationUpdate) :
    (r.taken u).TooSoon u.now u.id := by
  refine ⟨u.now, AList.lookup_insert _, ?_⟩
  rw [sub_self]
  decide

/-- A failed update leaves no trace exactly when the rate limiter refused it. -/
theorem leavesNoTrace_iff {e : RegistryError} (hfail : (r.update u).1 = .error e) :
    r.LeavesNoTrace u ↔ r.TooSoon u.now u.id := by
  constructor
  · intro htrace
    by_contra hsoon
    rcases update_of_not_tooSoon hsoon with ⟨-, htaken⟩ | ⟨cap, -, hok, -⟩
    · -- the same call once more, with a backend that works, tells the two states apart
      have hreplies := (htrace [.update { u with faults := .none }]).2
      have hrefused : ((r.update u).2.update { u with faults := .none }).1 =
          .error (.rateLimited u.id.raw) := by
        have hsame : (r.taken u).TooSoon u.now u.id := tooSoon_taken r u
        rw [htaken, update_of_tooSoon (u := { u with faults := .none }) hsame]
      have hhead : (r.update { u with faults := .none }).1 = .error (.rateLimited u.id.raw) := by
        rw [← hrefused]
        exact (List.head_eq_of_cons_eq hreplies).symm
      rcases update_of_not_tooSoon (u := { u with faults := .none }) hsoon with
        ⟨⟨e', he'⟩, -⟩ | ⟨cap, -, hok, -⟩
      · rw [he'] at hhead
        cases hhead
      · rw [hok] at hhead
        cases hhead
    · rw [hok] at hfail
      cases hfail
  · intro hsoon later
    rw [update_of_tooSoon hsoon]
    exact ⟨rfl, rfl⟩

/-! ## The distance between updates -/

/-- A successful update was far enough from the instant the limiter remembered, and is
remembered now. -/
theorem update_ok (h : (r.update u).1 = .ok ()) :
    (∀ last ∈ r.reputationRate.lookup u.id, last + reputationRateLimit ≤ u.now) ∧
      (r.update u).2.reputationRate.lookup u.id = some u.now := by
  by_cases hsoon : r.TooSoon u.now u.id
  · rw [update_of_tooSoon hsoon] at h
    cases h
  · rcases update_of_not_tooSoon hsoon with ⟨⟨e, he⟩, -⟩ | ⟨cap, -, -, htaken⟩
    · rw [he] at h
      cases h
    · refine ⟨fun last hlast => ?_, ?_⟩
      · by_contra hlt
        exact hsoon ⟨last, hlast, by omega⟩
      · rw [htaken]
        exact AList.lookup_insert _

/-- The remembered instant of an id never goes back. -/
theorem exec_remembers (call : FallibleCall) {id : CapabilityId} {last : ℤ}
    (h : last ∈ r.reputationRate.lookup id) :
    ∃ last' ∈ (exec r call).2.reputationRate.lookup id, last ≤ last' := by
  have hkept : (exec r call).2.reputationRate = r.reputationRate →
      ∃ last' ∈ (exec r call).2.reputationRate.lookup id, last ≤ last' := fun heq => by
    rw [heq]
    exact ⟨last, h, le_refl _⟩
  cases call with
  | register cap fault =>
    apply hkept
    simp only [exec, register]
    rcases cap.validate with e | ⟨⟩
    · rfl
    · cases fault <;> rfl
  | deregister id' fault =>
    apply hkept
    simp only [exec, deregister]
    cases fault <;> rfl
  | update u =>
    by_cases hsoon : r.TooSoon u.now u.id
    · apply hkept
      rw [exec, update_of_tooSoon hsoon]
    · have htaken : (exec r (.update u)).2.reputationRate = (r.taken u).reputationRate := by
        rcases update_of_not_tooSoon hsoon with ⟨-, htaken⟩ | ⟨cap, -, -, htaken⟩
        · rw [exec, htaken]
        · rw [exec, htaken]
      rw [htaken, taken]
      by_cases hid : id = u.id
      · subst hid
        refine ⟨u.now, AList.lookup_insert _, ?_⟩
        by_contra hlt
        refine hsoon ⟨last, h, ?_⟩
        rw [reputationRateLimit]
        omega
      · refine ⟨last, ?_, le_refl _⟩
        rw [AList.lookup_insert_ne hid]
        exact h

/-- Two steps of a run, the later one not a successful update of the id of the earlier one
within the minimum interval. -/
def Apart (st st' : Machine.Step RatedRegistry FallibleCall (Except RegistryError Unit)) : Prop :=
  ∀ u u' : ReputationUpdate, st.call = .update u → st'.call = .update u' → u.id = u'.id →
    st.reply = .ok () → st'.reply = .ok () → u.now + reputationRateLimit ≤ u'.now

/-- Each successful update of a run is remembered by the limiter, or a later one is. -/
theorem run_remembers (r : RatedRegistry) (calls : List FallibleCall) :
    ∀ st ∈ Machine.trace exec r calls, ∀ u : ReputationUpdate, st.call = .update u →
      st.reply = .ok () →
      ∃ last ∈ (Machine.run exec r calls).reputationRate.lookup u.id, u.now ≤ last := by
  induction calls using List.reverseRecOn with
  | nil => exact fun st hst => absurd hst List.not_mem_nil
  | append_singleton calls call ih =>
    intro st hst u hcall hreply
    rw [Machine.run_concat]
    rw [Machine.trace_concat, List.mem_append, List.mem_singleton] at hst
    rcases hst with hst | rfl
    · obtain ⟨last, hlast, hle⟩ := ih st hst u hcall hreply
      obtain ⟨last', hlast', hle'⟩ := exec_remembers call hlast
      exact ⟨last', hlast', hle.trans hle'⟩
    · obtain rfl : call = .update u := hcall
      exact ⟨u.now, (update_ok hreply).2, le_refl _⟩

/-- Successful updates of one id are a minute apart, in every run. -/
theorem updates_apart (r : RatedRegistry) (calls : List FallibleCall) :
    (Machine.trace exec r calls).Pairwise Apart := by
  induction calls using List.reverseRecOn with
  | nil => exact List.Pairwise.nil
  | append_singleton calls call ih =>
    rw [Machine.trace_concat, List.pairwise_append]
    refine ⟨ih, List.pairwise_singleton _ _, fun st hst st' hst' => ?_⟩
    obtain rfl := List.mem_singleton.mp hst'
    intro u u' hcall hcall' hid hreply hreply'
    obtain rfl : call = .update u' := hcall'
    obtain ⟨last, hlast, hle⟩ := run_remembers r calls st hst u hcall hreply
    rw [hid] at hlast
    have hfar := (update_ok hreply').1 last hlast
    omega

/-- **Failed updates.** In every state, a failed update is as good as not made exactly when
the rate limiter refused it; a failure behind the limiter has taken the slot of the id. In
every run the successful updates of one id are a minute apart. -/
theorem failed_update_iff (r : RatedRegistry) (u : ReputationUpdate) (calls : List FallibleCall) :
    (∀ e : RegistryError, (r.update u).1 = .error e →
      (r.LeavesNoTrace u ↔ r.TooSoon u.now u.id)) ∧
    (Machine.trace exec r calls).Pairwise Apart :=
  ⟨fun _ hfail => leavesNoTrace_iff hfail, updates_apart r calls⟩

/-- An update, at the instant `now`, over a backend that works. -/
def stockUpdate (now : ℤ) : ReputationUpdate :=
  ⟨now, .none, ⟨"cap-stock"⟩, .finite (4 / 5), ⟨"lr-1", .miner, 0, 5⟩⟩

/-- A registry with the capability, and an update of it at instant zero. -/
def stockUpdated : RatedRegistry :=
  Machine.run exec .inMemory
    [.register (.plain ⟨"cap-stock"⟩ "check stock") none, .update (stockUpdate 0)]

/-- Half a minute after an update the next one is refused without a trace. -/
theorem failed_update_stockUpdated : stockUpdated.LeavesNoTrace (stockUpdate 30000000000) := by
  have hsoon : stockUpdated.TooSoon 30000000000 ⟨"cap-stock"⟩ := by decide +kernel
  have hfail : (stockUpdated.update (stockUpdate 30000000000)).1 =
      .error (.rateLimited "cap-stock") := by
    rw [update_of_tooSoon hsoon]
    rfl
  exact ((failed_update_iff stockUpdated (stockUpdate 30000000000) []).1 _ hfail).mpr hsoon

/-- The update of an unknown id fails, and with it the one after the registration. -/
theorem unknown_update_leaves_trace :
    (inMemory.update (stockUpdate 0)).1 = .error (.storage (.notFound "cap-stock")) ∧
      ¬ inMemory.LeavesNoTrace (stockUpdate 0) := by
  refine ⟨by decide +kernel, fun htrace => ?_⟩
  have hreplies := (htrace [.register (.plain ⟨"cap-stock"⟩ "check stock") none,
    .update (stockUpdate 1000000000)]).2
  revert hreplies
  decide +kernel

end RatedRegistry

end Aaf
