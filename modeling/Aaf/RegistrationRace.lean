import Aaf.Loop
import Aaf.Registration

/-!
# Registrations racing with each other

`RegistrationPipeline::register` without `force` looks the id up, and goes on to store the
contract when the look-up fails. Here any number of such calls, numbered, run together
with deregistrations, one access to shared state at a time, in any order, over a store
whose `get` may fail for other reasons than a missing entry.

A call takes every error of `get` for a free id, and it stores its contract without
looking again. So nothing is overwritten exactly when the id is free again by the end of
each call's window from the look-up to the store: `nothingOverwritten_iff`.
-/

namespace Aaf

namespace RegistrationRace

/-! ## The system -/

/-- How far a call of `register` has come. -/
inductive Phase : Type where
  | idle : Phase
  /-- the contract passed validation -/
  | validated : Phase
  /-- the health check passed -/
  | healthy : Phase
  /-- the look-up failed, which is taken for a free id -/
  | clear : Phase
  /-- the contract is stored -/
  | stored : Phase
  /-- the initial trust is assigned -/
  | trusted : Phase
  | done (result : Except RegistrationError RegistrationResult) : Phase

/-- The services and the calls. -/
structure Shared where
  services : RegistrationServices
  phase : ℕ → Phase

/-- What is stored for an id. -/
def Shared.lookup (s : Shared) (id : CapabilityId) : Option CapabilityContract :=
  s.services.registry.store.lookup id

/-- One step of a call, or a deregistration. The health check is answered from outside,
and so is `get`, when it fails transiently. -/
inductive Action : Type where
  | validate (call : ℕ) : Action
  | healthCheck (call : ℕ) (answer : Except String Unit) : Action
  | get (call : ℕ) (fault : Option StorageError) : Action
  | upsert (call : ℕ) : Action
  | assignTrust (call : ℕ) : Action
  | reply (call : ℕ) : Action
  | deregister (id : CapabilityId) : Action

/-- A call that is not at the step asked of it. -/
inductive Blocked : Type where
  | blocked : Blocked

/-- Where validation brings a call. -/
def afterValidate : Except ContractError Unit → Phase
  | .ok () => .validated
  | .error e => .done (.error (.registry (.invalid e)))

/-- Where the health check brings a call. -/
def afterHealth (cap : CapabilityContract) : Except String Unit → Phase
  | .ok () => .healthy
  | .error reason => .done (.error (.healthCheckFailed cap.id.raw reason))

/-- `RegistryStore::get`, which a fault of the backend may answer for. -/
def fetch (r : Registry) (id : CapabilityId) :
    Option StorageError → Except RegistryError CapabilityContract
  | some e => .error (.storage e)
  | none => r.get id

/-- Where the look-up brings a call that does not force. -/
def afterGet (cap : CapabilityContract) : Except RegistryError CapabilityContract → Phase
  | .ok _ => .done (.error (.conflict cap.id.raw))
  | .error _ => .clear

/-- Where storing brings a call. -/
def afterUpsert : Except RegistryError Unit → Phase
  | .ok () => .stored
  | .error e => .done (.error (.registry e))

/-- What a call returns in the end. -/
def resultOf (s : Shared) (cap : CapabilityContract) : RegistrationResult :=
  ⟨cap.id.raw, false, (s.services.trust.get ⟨cap.id.raw⟩).value, true⟩

/-- A call moves on. -/
def Shared.move (s : Shared) (k : ℕ) (next : Phase) : Shared :=
  { s with phase := Function.update s.phase k next }

variable (calls : ℕ → CapabilityContract)

/-- One step of the system. -/
def step (s : Shared) : Action → Except Blocked Shared
  | .validate k =>
    match s.phase k with
    | .idle => .ok (s.move k (afterValidate (calls k).validate))
    | _ => .error .blocked
  | .healthCheck k answer =>
    match s.phase k with
    | .validated => .ok (s.move k (afterHealth (calls k) answer))
    | _ => .error .blocked
  | .get k fault =>
    match s.phase k with
    | .healthy =>
      .ok (s.move k
        (afterGet (calls k) (fetch s.services.registry.store (calls k).id fault)))
    | _ => .error .blocked
  | .upsert k =>
    match s.phase k with
    | .clear =>
      .ok
        { services := s.services.withStore (s.services.registry.store.register (calls k)).2
          phase := Function.update s.phase k
            (afterUpsert (s.services.registry.store.register (calls k)).1) }
    | _ => .error .blocked
  | .assignTrust k =>
    match s.phase k with
    | .stored =>
      .ok
        { services := { s.services with trust := s.services.trust.register ⟨(calls k).id.raw⟩ }
          phase := Function.update s.phase k .trusted }
    | _ => .error .blocked
  | .reply k =>
    match s.phase k with
    | .trusted => .ok (s.move k (.done (.ok (resultOf s (calls k)))))
    | _ => .error .blocked
  | .deregister id =>
    .ok { s with
      services := s.services.withStore (s.services.registry.store.deregister id).2 }

/-- Before any step: any services, no call started. -/
def start (services : RegistrationServices) : Shared := ⟨services, fun _ => .idle⟩

/-- From `s` the system takes the steps `actions` and comes to `t`. -/
def Runs (s : Shared) (actions : List Action) (t : Shared) : Prop :=
  actions.foldlM (step calls) s = .ok t

variable {calls}

/-- What a step asks of the calls and does to the services. -/
inductive Stepped (calls : ℕ → CapabilityContract) (s : Shared) : Action → Shared → Prop
  | validated {k : ℕ} (hidle : s.phase k = .idle) :
      Stepped calls s (.validate k) (s.move k (afterValidate (calls k).validate))
  | checked {k : ℕ} (answer : Except String Unit) (hvalidated : s.phase k = .validated) :
      Stepped calls s (.healthCheck k answer) (s.move k (afterHealth (calls k) answer))
  | fetched {k : ℕ} (fault : Option StorageError) (hhealthy : s.phase k = .healthy) :
      Stepped calls s (.get k fault) (s.move k
        (afterGet (calls k) (fetch s.services.registry.store (calls k).id fault)))
  | upserted {k : ℕ} (hclear : s.phase k = .clear) :
      Stepped calls s (.upsert k)
        ⟨s.services.withStore (s.services.registry.store.register (calls k)).2,
          Function.update s.phase k
            (afterUpsert (s.services.registry.store.register (calls k)).1)⟩
  | trusted {k : ℕ} (hstored : s.phase k = .stored) :
      Stepped calls s (.assignTrust k)
        ⟨{ s.services with trust := s.services.trust.register ⟨(calls k).id.raw⟩ },
          Function.update s.phase k .trusted⟩
  | replied {k : ℕ} (htrusted : s.phase k = .trusted) :
      Stepped calls s (.reply k) (s.move k (.done (.ok (resultOf s (calls k)))))
  | deregistered (id : CapabilityId) :
      Stepped calls s (.deregister id)
        ⟨s.services.withStore (s.services.registry.store.deregister id).2, s.phase⟩

theorem step_cases {s t : Shared} {a : Action} (h : step calls s a = .ok t) :
    Stepped calls s a t := by
  cases a with
  | deregister id =>
    rw [step] at h
    cases h
    exact .deregistered id
  | validate k =>
    rw [step] at h
    rcases hphase : s.phase k with _ | _ | _ | _ | _ | _ | result <;> rw [hphase] at h <;> cases h
    exact .validated hphase
  | healthCheck k answer =>
    rw [step] at h
    rcases hphase : s.phase k with _ | _ | _ | _ | _ | _ | result <;> rw [hphase] at h <;> cases h
    exact .checked answer hphase
  | get k fault =>
    rw [step] at h
    rcases hphase : s.phase k with _ | _ | _ | _ | _ | _ | result <;> rw [hphase] at h <;> cases h
    exact .fetched fault hphase
  | upsert k =>
    rw [step] at h
    cases hphase : s.phase k with
    | clear =>
      rw [hphase] at h
      rw [← Except.ok.inj h]
      exact .upserted hphase
    | _ =>
      rw [hphase] at h
      cases h
  | assignTrust k =>
    rw [step] at h
    rcases hphase : s.phase k with _ | _ | _ | _ | _ | _ | result <;> rw [hphase] at h <;> cases h
    exact .trusted hphase
  | reply k =>
    rw [step] at h
    rcases hphase : s.phase k with _ | _ | _ | _ | _ | _ | result <;> rw [hphase] at h <;> cases h
    exact .replied hphase

/-! ## One call alone -/

theorem Runs.cons {s s' t : Shared} {a : Action} {actions : List Action}
    (h : step calls s a = .ok s') (hrest : Runs calls s' actions t) :
    Runs calls s (a :: actions) t :=
  Loop.foldlM_cons_ok.mpr ⟨s', h, hrest⟩

theorem Runs.nil (s : Shared) : Runs calls s [] s := rfl

@[simp]
theorem move_phase_self (s : Shared) (k : ℕ) (next : Phase) : (s.move k next).phase k = next :=
  Function.update_self ..

theorem step_assignTrust {s : Shared} {k : ℕ} (hstored : s.phase k = .stored) :
    step calls s (.assignTrust k) =
      .ok ⟨{ s.services with trust := s.services.trust.register ⟨(calls k).id.raw⟩ },
        Function.update s.phase k .trusted⟩ := by
  rw [step, hstored]

theorem step_reply {s : Shared} {k : ℕ} (htrusted : s.phase k = .trusted) :
    step calls s (.reply k) = .ok (s.move k (.done (.ok (resultOf s (calls k))))) := by
  rw [step, htrusted]

/-- Once it is clear, a call that runs alone ends like `RegistrationServices.enter`. -/
theorem alone_enter {s : Shared} {k : ℕ} (hclear : s.phase k = .clear) :
    ∃ actions t, Runs calls s actions t ∧
      t.phase k = .done (s.services.enter (calls k) false).1 ∧
      t.services = (s.services.enter (calls k) false).2 := by
  have hupsert : step calls s (.upsert k) =
      .ok ⟨s.services.withStore (s.services.registry.store.register (calls k)).2,
        Function.update s.phase k
          (afterUpsert (s.services.registry.store.register (calls k)).1)⟩ := by
    rw [step, hclear]
  rw [RegistrationServices.enter]
  rcases hregister : s.services.registry.store.register (calls k) with ⟨e | u, store⟩
  · rw [hregister] at hupsert
    exact ⟨[.upsert k], _, Runs.cons hupsert (Runs.nil _), Function.update_self .., rfl⟩
  · rw [hregister] at hupsert
    exact ⟨[.upsert k, .assignTrust k, .reply k], _,
      Runs.cons hupsert (Runs.cons (step_assignTrust (Function.update_self ..))
        (Runs.cons (step_reply (Function.update_self ..)) (Runs.nil _))),
      move_phase_self .., rfl⟩

/-- **A call without others.** A call that runs alone, with no fault of the store, is
`RegistrationPipeline::register` without `force`. -/
theorem alone_eq_register {s : Shared} {k : ℕ} (healthCheck : HealthCheck)
    (hidle : s.phase k = .idle) :
    ∃ actions t, Runs calls s actions t ∧
      t.phase k =
        .done (RegistrationPipeline.register healthCheck s.services (calls k) false).1 ∧
      t.services = (RegistrationPipeline.register healthCheck s.services (calls k) false).2 := by
  have hvalidate : step calls s (.validate k) =
      .ok (s.move k (afterValidate (calls k).validate)) := by
    rw [step, hidle]
  rw [RegistrationPipeline.register]
  rcases hvalid : (calls k).validate with e | u
  · rw [hvalid] at hvalidate
    exact ⟨[.validate k], _, (Runs.nil _).cons hvalidate, move_phase_self .., rfl⟩
  · rw [hvalid] at hvalidate
    have hcheck : step calls (s.move k .validated) (.healthCheck k (healthCheck (calls k))) =
        .ok ((s.move k .validated).move k (afterHealth (calls k) (healthCheck (calls k)))) := by
      rw [step, move_phase_self]
    rcases hhealth : healthCheck (calls k) with reason | u'
    · rw [hhealth] at hcheck
      exact ⟨[.validate k, .healthCheck k (.error reason)], _,
        ((Runs.nil _).cons hcheck).cons hvalidate, move_phase_self .., rfl⟩
    · rw [hhealth] at hcheck
      have hget : step calls ((s.move k .validated).move k .healthy) (.get k none) =
          .ok (((s.move k .validated).move k .healthy).move k
            (afterGet (calls k) (s.services.registry.store.get (calls k).id))) := by
        rw [step, move_phase_self]
        rfl
      rcases hstored : s.services.registry.store.get (calls k).id with e | old
      · rw [hstored] at hget
        obtain ⟨actions, t, hruns, hphase, hservices⟩ :=
          @alone_enter calls _ _ (move_phase_self ((s.move k .validated).move k .healthy) k .clear)
        exact ⟨_, t, ((hruns.cons hget).cons hcheck).cons hvalidate, hphase, hservices⟩
      · rw [hstored] at hget
        exact ⟨_, _, (((Runs.nil _).cons hget).cons hcheck).cons hvalidate,
          move_phase_self .., rfl⟩

/-! ## What is stored -/

/-- Between validation and the end. -/
def Phase.InProgress : Phase → Prop
  | .idle => False
  | .done _ => False
  | _ => True

/-- Calls in progress have passed validation. -/
def Valid (calls : ℕ → CapabilityContract) (s : Shared) : Prop :=
  ∀ k, (s.phase k).InProgress → (calls k).validate = .ok ()

/-- A call moves on, from where it has passed validation or by passing it. -/
theorem Valid.update {s : Shared} {k : ℕ} {next : Phase} (h : Valid calls s)
    (hnext : next.InProgress → (calls k).validate = .ok ()) :
    ∀ j, (Function.update s.phase k next j).InProgress → (calls j).validate = .ok () := by
  intro j hj
  by_cases hjk : j = k
  · subst hjk
    rw [Function.update_self] at hj
    exact hnext hj
  · rw [Function.update_of_ne hjk] at hj
    exact h j hj

theorem Valid.step {s t : Shared} {a : Action} (h : Valid calls s)
    (hstep : Stepped calls s a t) : Valid calls t := by
  have hfrom : ∀ {k p}, s.phase k = p → p.InProgress → (calls k).validate = .ok () := by
    intro k p hphase hp
    exact h k (hphase ▸ hp)
  cases hstep with
  | @validated k hidle =>
    refine h.update fun hnext => ?_
    rcases hvalid : (calls k).validate with e | u
    · rw [hvalid] at hnext
      exact hnext.elim
    · rfl
  | checked answer hvalidated => exact h.update fun _ => hfrom hvalidated trivial
  | fetched fault hhealthy => exact h.update fun _ => hfrom hhealthy trivial
  | upserted hclear => exact h.update fun _ => hfrom hclear trivial
  | trusted hstored => exact h.update fun _ => hfrom hstored trivial
  | replied htrusted => exact h.update fun _ => hfrom htrusted trivial
  | deregistered id => exact h

/-- What is stored for an id after one more step. -/
def store (calls : ℕ → CapabilityContract) (id : CapabilityId) (last : Option CapabilityContract) :
    Action → Option CapabilityContract
  | .upsert k => if (calls k).id = id then some (calls k) else last
  | .deregister gone => if gone = id then none else last
  | _ => last

theorem lookup_step {s t : Shared} {a : Action} (id : CapabilityId) (h : Valid calls s)
    (hstep : Stepped calls s a t) : t.lookup id = store calls id (s.lookup id) a := by
  cases hstep with
  | validated hidle => rfl
  | checked answer hvalidated => rfl
  | fetched fault hhealthy => rfl
  | trusted hstored => rfl
  | replied htrusted => rfl
  | @upserted k hclear =>
    have hvalid := h k (by rw [hclear]; trivial)
    simp only [Shared.lookup, store, RegistrationServices.withStore,
      RegistrationServices.store_register_of_ok hvalid, Registry.upsert]
    by_cases hid : (calls k).id = id
    · rw [if_pos hid, ← hid, AList.lookup_insert]
    · rw [if_neg hid, AList.lookup_insert_ne fun heq => hid heq.symm]
  | deregistered gone =>
    simp only [Shared.lookup, store, RegistrationServices.withStore, Registry.deregister]
    by_cases hid : gone = id
    · rw [if_pos hid, hid, AList.lookup_erase]
    · rw [if_neg hid, AList.lookup_erase_ne fun heq => hid heq.symm]

/-- Over a run, what is stored for an id is what its steps say. -/
theorem Runs.lookup {s t : Shared} {actions : List Action} (id : CapabilityId)
    (h : Runs calls s actions t) (hvalid : Valid calls s) :
    Valid calls t ∧ t.lookup id = actions.foldl (store calls id) (s.lookup id) := by
  refine Loop.foldlM_ok (I := fun pre t => Valid calls t ∧
    t.lookup id = pre.foldl (store calls id) (s.lookup id)) ⟨hvalid, rfl⟩ ?_ h
  rintro pre a t t' ⟨hvalid, hlookup⟩ hstep
  refine ⟨hvalid.step (step_cases hstep), ?_⟩
  rw [lookup_step id hvalid (step_cases hstep), hlookup, List.foldl_append]
  rfl

theorem valid_start (services : RegistrationServices) : Valid calls (start services) := by
  intro k hk
  exact hk.elim

/-- Whatever the steps store for the id, they remove again. -/
def Undone (calls : ℕ → CapabilityContract) (id : CapabilityId) (actions : List Action) : Prop :=
  ∀ pre k post, actions = pre ++ .upsert k :: post → (calls k).id = id →
    .deregister id ∈ post

theorem undone_concat_iff {id : CapabilityId} {actions : List Action} {a : Action} :
    Undone calls id (actions ++ [a]) ↔
      a = .deregister id ∨
        (Undone calls id actions ∧ ∀ k, a = .upsert k → (calls k).id ≠ id) := by
  refine ⟨fun h => ?_, ?_⟩
  · by_cases hfrees : a = .deregister id
    · exact Or.inl hfrees
    · refine Or.inr ⟨fun pre k post hsplit hid => ?_, fun k hk hid => ?_⟩
      · have hmem := h pre k (post ++ [a]) (by simp [hsplit]) hid
        rcases List.mem_append.mp hmem with hpost | hlast
        · exact hpost
        · exact absurd (List.mem_singleton.mp hlast).symm hfrees
      · exact absurd (h actions k [] (by rw [hk]) hid) List.not_mem_nil
  · intro h pre k post hsplit hid
    rcases List.eq_nil_or_concat post with rfl | ⟨post, z, rfl⟩
    · obtain ⟨-, hlast⟩ := List.append_inj' hsplit rfl
      obtain rfl : a = .upsert k := by simpa using hlast
      rcases h with h | ⟨-, h⟩
      · cases h
      · exact absurd hid (h k rfl)
    · have hcut : actions ++ [a] = (pre ++ .upsert k :: post) ++ [z] := by simpa using hsplit
      obtain ⟨hactions, hlast⟩ := List.append_inj' hcut rfl
      obtain rfl : a = z := by simpa using hlast
      rcases h with rfl | ⟨h, -⟩
      · simp
      · rw [List.concat_eq_append]
        exact List.mem_append_left _ (h pre k post hactions hid)

/-- The id is free after the steps when what was there before has been removed, and what
came in between as well. -/
theorem foldl_store_eq_none_iff {id : CapabilityId} {actions : List Action}
    {last : Option CapabilityContract} :
    actions.foldl (store calls id) last = none ↔
      (last ≠ none → .deregister id ∈ actions) ∧ Undone calls id actions := by
  induction actions using List.reverseRecOn with
  | nil =>
    refine ⟨fun h => ⟨fun hlast => absurd h hlast, fun pre k post hsplit => ?_⟩, fun h => ?_⟩
    · simp at hsplit
    · by_contra hlast
      exact absurd (h.1 hlast) List.not_mem_nil
  | append_singleton actions a ih =>
    rw [List.foldl_append, List.foldl_cons, List.foldl_nil, undone_concat_iff]
    by_cases hfrees : a = .deregister id
    · simp [hfrees, store]
    · by_cases htakes : ∃ k, a = .upsert k ∧ (calls k).id = id
      · obtain ⟨k, rfl, hid⟩ := htakes
        simp [store, hid]
      · -- any other step leaves the id as it was
        have hother : ∀ last, store calls id last a = last := by
          intro last
          cases a with
          | upsert k => exact if_neg fun hid => htakes ⟨k, rfl, hid⟩
          | deregister gone => exact if_neg fun hid => hfrees (by rw [hid])
          | _ => rfl
        have hnot : ∀ k, a = .upsert k → (calls k).id ≠ id := fun k hk hid => htakes ⟨k, hk, hid⟩
        have hmem : .deregister id ∈ actions ++ [a] ↔ .deregister id ∈ actions := by
          simp [Ne.symm hfrees]
        rw [hother, ih, hmem]
        refine and_congr_right fun _ => ⟨fun h => Or.inr ⟨h, hnot⟩, fun h => ?_⟩
        exact (h.resolve_left hfrees).1

/-! ## The look-up and the store -/

/-- A step of a call leaves the other calls where they are. -/
def Action.call : Action → Option ℕ
  | .validate k => some k
  | .healthCheck k _ => some k
  | .get k _ => some k
  | .upsert k => some k
  | .assignTrust k => some k
  | .reply k => some k
  | .deregister _ => none

theorem Stepped.phase_ne {s t : Shared} {a : Action} {k : ℕ} (h : Stepped calls s a t)
    (hk : a.call ≠ some k) : t.phase k = s.phase k := by
  cases h with
  | deregistered id => rfl
  | _ => exact Function.update_of_ne (fun heq => hk (congrArg some heq.symm)) _ _

/-- A call that is clear has looked its id up. -/
theorem Stepped.clear {s t : Shared} {a : Action} {k : ℕ} (h : Stepped calls s a t)
    (hclear : t.phase k = .clear) : s.phase k = .clear ∨ ∃ fault, a = .get k fault := by
  by_cases hk : a.call = some k
  · cases h with
    | fetched fault hhealthy => exact Or.inr ⟨fault, by cases hk; rfl⟩
    | deregistered id => cases hk
    | validated hidle =>
      cases hk
      rw [move_phase_self] at hclear
      rcases hvalid : (calls k).validate with e | u <;> rw [hvalid] at hclear <;> cases hclear
    | checked answer hvalidated =>
      cases hk
      rw [move_phase_self] at hclear
      rcases answer with reason | u <;> cases hclear
    | upserted hclear' =>
      cases hk
      exact Or.inl hclear'
    | trusted hstored =>
      cases hk
      dsimp only at hclear
      rw [Function.update_self] at hclear
      cases hclear
    | replied htrusted =>
      cases hk
      rw [move_phase_self] at hclear
      cases hclear
  · rw [h.phase_ne hk] at hclear
    exact Or.inl hclear

/-- Between them lies a window: the steps after the look-up. -/
theorem Runs.window {services : RegistrationServices} {actions : List Action} {t : Shared} {k : ℕ}
    (h : Runs calls (start services) actions t) (hclear : t.phase k = .clear) :
    ∃ before fault mid s, actions = before ++ .get k fault :: mid ∧
      Runs calls (start services) before s ∧ Runs calls s (.get k fault :: mid) t := by
  induction actions using List.reverseRecOn generalizing t with
  | nil =>
    cases h
    cases hclear
  | append_singleton actions a ih =>
    obtain ⟨s, hs, hstep⟩ := Loop.foldlM_concat_ok.mp h
    rcases (step_cases hstep).clear hclear with hprev | ⟨fault, rfl⟩
    · obtain ⟨before, fault, mid, s₀, rfl, hbefore, hmid⟩ := ih hs hprev
      refine ⟨before, fault, mid ++ [a], s₀, by simp, hbefore, ?_⟩
      exact Loop.foldlM_concat_ok.mpr ⟨s, hmid, hstep⟩
    · exact ⟨actions, fault, [], s, rfl, hs, Runs.cons hstep (Runs.nil _)⟩

/-- The call has stored its contract. -/
def Phase.HasStored : Phase → Prop
  | .stored => True
  | .trusted => True
  | .done (.ok _) => True
  | _ => False

theorem Stepped.hasStored {s t : Shared} {a : Action} {k : ℕ} (h : Stepped calls s a t)
    (hk : (t.phase k).HasStored) :
    (s.phase k).HasStored ∨ (a = .upsert k ∧ s.phase k = .clear) := by
  by_cases hcall : a.call = some k
  · cases h with
    | upserted hclear =>
      cases hcall
      exact Or.inr ⟨rfl, hclear⟩
    | trusted hstored =>
      cases hcall
      rw [hstored]
      exact Or.inl trivial
    | replied htrusted =>
      cases hcall
      rw [htrusted]
      exact Or.inl trivial
    | deregistered id => cases hcall
    | validated hidle =>
      cases hcall
      rw [move_phase_self] at hk
      rcases hvalid : (calls k).validate with e | u <;> rw [hvalid] at hk <;> exact hk.elim
    | checked answer hvalidated =>
      cases hcall
      rw [move_phase_self] at hk
      rcases answer with reason | u <;> exact hk.elim
    | fetched fault hhealthy =>
      cases hcall
      rw [move_phase_self] at hk
      generalize fetch s.services.registry.store (calls k).id fault = answer at hk
      rcases answer with e | old <;> exact hk.elim
  · rw [h.phase_ne hcall] at hk
    exact Or.inl hk

/-- A call that has stored its contract did so at one of the steps. -/
theorem Runs.upserted {services : RegistrationServices} {actions : List Action} {t : Shared}
    {k : ℕ} (h : Runs calls (start services) actions t) (hk : (t.phase k).HasStored) :
    ∃ before after s, actions = before ++ .upsert k :: after ∧
      Runs calls (start services) before s ∧ s.phase k = .clear := by
  induction actions using List.reverseRecOn generalizing t with
  | nil =>
    cases h
    exact hk.elim
  | append_singleton actions a ih =>
    obtain ⟨s, hs, hstep⟩ := Loop.foldlM_concat_ok.mp h
    rcases (step_cases hstep).hasStored hk with hprev | ⟨rfl, hclear⟩
    · obtain ⟨before, after, s₀, rfl, hbefore, hclear⟩ := ih hs hprev
      exact ⟨before, after ++ [a], s₀, by simp, hbefore, hclear⟩
    · exact ⟨actions, [], s, rfl, hs, hclear⟩

/-! ## When nothing is overwritten -/

/-- One of the two calls stores its contract after the other, with a deregistration of the
id in between. -/
def Separated (id : CapabilityId) (j k : ℕ) (actions : List Action) : Prop :=
  ∃ before mid after, .deregister id ∈ mid ∧
    (actions = before ++ .upsert j :: (mid ++ .upsert k :: after) ∨
      actions = before ++ .upsert k :: (mid ++ .upsert j :: after))

/-- **Nothing is overwritten.** A call that stores its contract finds nothing stored under
its id, and of the calls for an id at most one returns `Ok` while the id stays
registered. -/
structure NothingOverwritten (calls : ℕ → CapabilityContract) (services : RegistrationServices)
    (actions : List Action) : Prop where
  free : ∀ before k rest s, actions = before ++ .upsert k :: rest →
    Runs calls (start services) before s → s.phase k = .clear → s.lookup (calls k).id = none
  once : ∀ before rest s j k r r', actions = before ++ rest →
    Runs calls (start services) before s → j ≠ k → (calls j).id = (calls k).id →
    s.phase j = .done (.ok r) → s.phase k = .done (.ok r') → Separated (calls k).id j k before

/-- By the end of the window from a call's look-up to its store the id is free: if it was
stored at the look-up, which then failed for another reason, it has been deregistered, and
so has whatever other calls have stored under it in the window. -/
def WindowsClear (calls : ℕ → CapabilityContract) (services : RegistrationServices)
    (actions : List Action) : Prop :=
  ∀ before k fault mid rest s t, actions = before ++ .get k fault :: (mid ++ .upsert k :: rest) →
    Runs calls (start services) before s → Runs calls s (.get k fault :: mid) t →
    t.phase k = .clear →
      (s.lookup (calls k).id ≠ none → .deregister (calls k).id ∈ mid) ∧
        Undone calls (calls k).id mid

/-- What the window leaves of the id. -/
theorem lookup_window {services : RegistrationServices} {before mid : List Action} {k : ℕ}
    {fault : Option StorageError} {s t : Shared} (hs : Runs calls (start services) before s)
    (ht : Runs calls s (.get k fault :: mid) t) (id : CapabilityId) :
    t.lookup id = none ↔
      (s.lookup id ≠ none → .deregister id ∈ mid) ∧ Undone calls id mid := by
  have hvalid := (hs.lookup id (valid_start services)).1
  rw [(ht.lookup id hvalid).2, List.foldl_cons]
  exact foldl_store_eq_none_iff

theorem Runs.append {s t u : Shared} {actions more : List Action} (h : Runs calls s actions t)
    (h' : Runs calls t more u) : Runs calls s (actions ++ more) u :=
  Loop.foldlM_append_ok.mpr ⟨t, h, h'⟩

/-- Two stores under one id, each into a free place, have a deregistration in between. -/
theorem deregister_between {services : RegistrationServices} {before mid : List Action}
    {j : ℕ} {id : CapabilityId} {t : Shared} (hid : (calls j).id = id)
    (ht : Runs calls (start services) (before ++ .upsert j :: mid) t)
    (hfree : t.lookup id = none) : .deregister id ∈ mid := by
  rw [(ht.lookup id (valid_start services)).2, foldl_store_eq_none_iff] at hfree
  exact hfree.2 before j mid rfl hid

/-- **The race.** In every interleaving of any number of `register` calls without `force`
with deregistrations, over any services and with any faults of `get`, nothing is
overwritten exactly when every window is clear. -/
theorem nothingOverwritten_iff (calls : ℕ → CapabilityContract) (services : RegistrationServices)
    (actions : List Action) :
    NothingOverwritten calls services actions ↔ WindowsClear calls services actions := by
  refine ⟨fun h => ?_, fun h => ?_⟩
  · intro before k fault mid rest s t hsplit hs ht hclear
    have hrun := hs.append ht
    refine (lookup_window hs ht _).mp (h.free _ k rest t ?_ hrun hclear)
    simp [hsplit]
  · have hfree : ∀ before k rest s, actions = before ++ .upsert k :: rest →
        Runs calls (start services) before s → s.phase k = .clear →
          s.lookup (calls k).id = none := by
      intro before k rest t hsplit ht hclear
      obtain ⟨first, fault, mid, s, rfl, hs, hmid⟩ := ht.window hclear
      exact (lookup_window hs hmid _).mpr
        (h first k fault mid rest s t (by simpa using hsplit) hs hmid hclear)
    refine ⟨hfree, fun before rest s j k r r' hsplit hs hjk hid hj hk => ?_⟩
    obtain ⟨bj, aj, sj, hbj, hrunj, hclearj⟩ := hs.upserted (k := j) (by rw [hj]; trivial)
    obtain ⟨bk, ak, sk, hbk, hrunk, hcleark⟩ := hs.upserted (k := k) (by rw [hk]; trivial)
    have hfreej := hfree bj j (aj ++ rest) sj (by simp [hsplit, hbj]) hrunj hclearj
    have hfreek := hfree bk k (ak ++ rest) sk (by simp [hsplit, hbk]) hrunk hcleark
    -- one of the two stores comes first
    rcases List.append_eq_append_iff.mp (hbj.symm.trans hbk) with
      ⟨mid, hmid, hrest⟩ | ⟨mid, hmid, hrest⟩
    · rcases mid with _ | ⟨a, mid⟩
      · cases hrest
        exact absurd rfl hjk
      · obtain ⟨rfl, rfl⟩ := List.cons.inj hrest
        rw [hmid] at hrunk
        exact ⟨bj, mid, ak, deregister_between hid hrunk hfreek, Or.inl hbj⟩
    · rcases mid with _ | ⟨a, mid⟩
      · cases hrest
        exact absurd rfl hjk
      · obtain ⟨rfl, rfl⟩ := List.cons.inj hrest
        rw [hmid] at hrunj
        rw [hid] at hfreej
        exact ⟨bk, mid, aj, deregister_between rfl hrunj hfreej, Or.inr hbk⟩

/-- Two calls look up a free id, and then both store their contracts. -/
def racing : List Action :=
  [.validate 0, .healthCheck 0 (.ok ()), .validate 1, .healthCheck 1 (.ok ()), .get 0 none,
    .get 1 none, .upsert 0, .upsert 1]

/-- The second replaces what the first has stored. -/
theorem racing_overwrites :
    ¬ NothingOverwritten
      (fun k => .plain ⟨"cap-stock"⟩ (if k = 0 then "stock" else "stock, revised"))
      RegistrationServices.inMemory racing := by
  intro h
  have hnone := h.free (racing.take 7) 1 [] _ rfl rfl rfl
  cases hnone

end RegistrationRace

end Aaf
