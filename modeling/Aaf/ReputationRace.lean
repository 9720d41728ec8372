import Aaf.Loop
import Aaf.Registration

/-!
# Reputation updates racing with registrations

`Registry::update_reputation` takes three locks one after the other: it passes the rate
limiter, it reads the contract, and it writes the whole contract back with two fields
changed. Here any number of updates, numbered, run together with registrations and
deregistrations, one lock acquisition at a time, in any order.

What was declared last for an id is what its last registration or deregistration said.
A write-back restores what the update has read. So an update undoes a change exactly
when the change lands between its reading and its writing: `declarationsKept_iff`.
-/

namespace Aaf

namespace ReputationRace

/-! ## The system -/

/-- One call of `update_reputation`. -/
structure Update where
  id : CapabilityId
  newScore : F64
  evidence : LearnedRuleRef

/-- How far an update has come. -/
inductive Phase : Type where
  | idle : Phase
  /-- it passed the rate limiter -/
  | admitted : Phase
  /-- it has read the contract, and has not written it back yet -/
  | fetched (cap : CapabilityContract) : Phase
  | done (result : Except RegistryError Unit) : Phase

/-- The registry and the updates. -/
structure Shared where
  registry : RatedRegistry
  phase : ℕ → Phase

/-- One lock acquisition. -/
inductive Action : Type where
  | rateLimit (update : ℕ) (now : ℤ) : Action
  | fetch (update : ℕ) : Action
  | writeBack (update : ℕ) : Action
  | register (cap : CapabilityContract) : Action
  | deregister (id : CapabilityId) : Action

/-- An update that is not at the step asked of it. -/
inductive Blocked : Type where
  | blocked : Blocked

/-- Where the rate limiter brings an update. -/
def afterLimit : Except RegistryError Unit → Phase
  | .ok () => .admitted
  | .error e => .done (.error e)

/-- Where reading brings an update. -/
def afterFetch : Except RegistryError CapabilityContract → Phase
  | .ok cap => .fetched cap
  | .error e => .done (.error e)

variable (updates : ℕ → Update)

/-- One step of the system. -/
def step (s : Shared) : Action → Except Blocked Shared
  | .rateLimit k now =>
    match s.phase k with
    | .idle =>
      .ok
        { registry := (s.registry.rateLimit now (updates k).id).2
          phase := Function.update s.phase k
            (afterLimit (s.registry.rateLimit now (updates k).id).1) }
    | _ => .error .blocked
  | .fetch k =>
    match s.phase k with
    | .admitted =>
      .ok { s with
        phase := Function.update s.phase k (afterFetch (s.registry.store.get (updates k).id)) }
    | _ => .error .blocked
  | .writeBack k =>
    match s.phase k with
    | .fetched cap =>
      .ok
        { registry := { s.registry with
            store := s.registry.store.upsert
              (cap.rescored (updates k).newScore (updates k).evidence) }
          phase := Function.update s.phase k (.done (.ok ())) }
    | _ => .error .blocked
  | .register cap =>
    .ok { s with registry := { s.registry with store := (s.registry.store.register cap).2 } }
  | .deregister id =>
    .ok { s with registry := { s.registry with store := (s.registry.store.deregister id).2 } }

/-- Before any step: an empty registry, no update started. -/
def start : Shared := ⟨.inMemory, fun _ => .idle⟩

/-- The system takes the steps `actions` and comes to `s`. -/
def Runs (actions : List Action) (s : Shared) : Prop :=
  actions.foldlM (step updates) start = .ok s

variable {updates}

theorem runs_concat_iff {actions : List Action} {a : Action} {t : Shared} :
    Runs updates (actions ++ [a]) t ↔ ∃ s, Runs updates actions s ∧ step updates s a = .ok t :=
  Loop.foldlM_concat_ok

theorem Runs.unique {actions : List Action} {s t : Shared} (hs : Runs updates actions s)
    (ht : Runs updates actions t) : s = t :=
  Except.ok.inj (hs.symm.trans ht)

/-- What a step asks of the updates and does to the store. -/
inductive Stepped (updates : ℕ → Update) (s : Shared) : Action → Shared → Prop
  | limited {k : ℕ} (now : ℤ) (hidle : s.phase k = .idle) :
      Stepped updates s (.rateLimit k now)
        ⟨(s.registry.rateLimit now (updates k).id).2,
          Function.update s.phase k (afterLimit (s.registry.rateLimit now (updates k).id).1)⟩
  | fetched {k : ℕ} (hadmitted : s.phase k = .admitted) :
      Stepped updates s (.fetch k)
        ⟨s.registry,
          Function.update s.phase k (afterFetch (s.registry.store.get (updates k).id))⟩
  | wrote {k : ℕ} {cap : CapabilityContract} (hfetched : s.phase k = .fetched cap) :
      Stepped updates s (.writeBack k)
        ⟨⟨s.registry.store.upsert (cap.rescored (updates k).newScore (updates k).evidence),
            s.registry.reputationRate⟩,
          Function.update s.phase k (.done (.ok ()))⟩
  | registered (cap : CapabilityContract) :
      Stepped updates s (.register cap)
        ⟨⟨(s.registry.store.register cap).2, s.registry.reputationRate⟩, s.phase⟩
  | deregistered (id : CapabilityId) :
      Stepped updates s (.deregister id)
        ⟨⟨(s.registry.store.deregister id).2, s.registry.reputationRate⟩, s.phase⟩

theorem step_cases {s t : Shared} {a : Action} (h : step updates s a = .ok t) :
    Stepped updates s a t := by
  cases a with
  | rateLimit k now =>
    rw [step] at h
    rcases hphase : s.phase k with _ | _ | cap | result <;> rw [hphase] at h <;> cases h
    exact .limited now hphase
  | fetch k =>
    rw [step] at h
    rcases hphase : s.phase k with _ | _ | cap | result <;> rw [hphase] at h <;> cases h
    exact .fetched hphase
  | writeBack k =>
    rw [step] at h
    rcases hphase : s.phase k with _ | _ | cap | result <;> rw [hphase] at h <;> cases h
    exact .wrote hphase
  | register cap =>
    rw [step] at h
    rw [← Except.ok.inj h]
    exact .registered cap
  | deregister id =>
    rw [step] at h
    cases h
    exact .deregistered id

theorem Stepped.step_eq {s t : Shared} {a : Action} (h : Stepped updates s a t) :
    step updates s a = .ok t := by
  cases h with
  | limited now hidle => rw [step, hidle]
  | fetched hadmitted => rw [step, hadmitted]
  | wrote hfetched => rw [step, hfetched]
  | registered cap => rfl
  | deregistered id => rfl

/-- An update that runs alone, from the rate limiter to its end, is
`Registry::update_reputation`. -/
theorem alone_eq_updateReputation {s : Shared} {k : ℕ} (now : ℤ) (hidle : s.phase k = .idle) :
    ∃ actions t, actions <+: [.rateLimit k now, .fetch k, .writeBack k] ∧
      actions.foldlM (step updates) s = .ok t ∧
      t.phase k = .done (s.registry.updateReputation now (updates k).id (updates k).newScore
        (updates k).evidence).1 ∧
      t.registry = (s.registry.updateReputation now (updates k).id (updates k).newScore
        (updates k).evidence).2 := by
  have hlimit : step updates s (.rateLimit k now) = _ := (Stepped.limited now hidle).step_eq
  rw [RatedRegistry.updateReputation]
  rcases hrate : s.registry.rateLimit now (updates k).id with ⟨e | u, r⟩
  · rw [hrate] at hlimit
    exact ⟨[.rateLimit k now], _, ⟨[.fetch k, .writeBack k], rfl⟩,
      Loop.foldlM_cons_ok.mpr ⟨_, hlimit, rfl⟩, Function.update_self .., rfl⟩
  · rw [hrate] at hlimit
    have hadmitted : Function.update s.phase k Phase.admitted k = .admitted :=
      Function.update_self ..
    have hfetch : step updates ⟨r, Function.update s.phase k .admitted⟩ (.fetch k) = _ :=
      (Stepped.fetched hadmitted).step_eq
    dsimp only at hfetch ⊢
    rcases hget : r.store.get (updates k).id with e | cap
    · rw [hget] at hfetch
      exact ⟨[.rateLimit k now, .fetch k], _, ⟨[.writeBack k], rfl⟩,
        Loop.foldlM_cons_ok.mpr ⟨_, hlimit, Loop.foldlM_cons_ok.mpr ⟨_, hfetch, rfl⟩⟩,
        Function.update_self .., rfl⟩
    · rw [hget] at hfetch
      have hfetched : Function.update (Function.update s.phase k .admitted) k (.fetched cap) k =
          .fetched cap := Function.update_self ..
      have hwrite : step updates
          ⟨r, Function.update (Function.update s.phase k .admitted) k (.fetched cap)⟩
          (.writeBack k) = _ := (Stepped.wrote hfetched).step_eq
      exact ⟨[.rateLimit k now, .fetch k, .writeBack k], _, List.prefix_rfl,
        Loop.foldlM_cons_ok.mpr ⟨_, hlimit, Loop.foldlM_cons_ok.mpr ⟨_, hfetch,
          Loop.foldlM_cons_ok.mpr ⟨_, hwrite, rfl⟩⟩⟩, Function.update_self .., rfl⟩

/-! ## Declarations -/

/-- The contracts are equal in every field but the reputation and the learned rules. -/
def SameDeclaration (cap cap' : CapabilityContract) : Prop :=
  { cap with reputation := cap'.reputation, learnedRules := cap'.learnedRules } = cap'

theorem SameDeclaration.refl (cap : CapabilityContract) : SameDeclaration cap cap := rfl

theorem sameDeclaration_rescored (cap : CapabilityContract) (score : F64)
    (evidence : LearnedRuleRef) : SameDeclaration cap (cap.rescored score evidence) := rfl

theorem SameDeclaration.symm {cap cap' : CapabilityContract} (h : SameDeclaration cap cap') :
    SameDeclaration cap' cap := by
  rw [SameDeclaration] at h ⊢
  rw [← h]

theorem SameDeclaration.trans {cap cap' cap'' : CapabilityContract}
    (h : SameDeclaration cap cap') (h' : SameDeclaration cap' cap'') :
    SameDeclaration cap cap'' := by
  rw [SameDeclaration] at h h' ⊢
  rw [← h', ← h]

/-- What a step declares for an id. -/
def declare (id : CapabilityId) (last : Option CapabilityContract) : Action → Option CapabilityContract
  | .register cap => if cap.id = id ∧ cap.validate = .ok () then some cap else last
  | .deregister gone => if gone = id then none else last
  | _ => last

/-- What the last registration or deregistration of an id said. -/
def declared (id : CapabilityId) (actions : List Action) : Option CapabilityContract :=
  actions.foldl (declare id) none

/-- What is stored for an id is what was declared, up to the reputation and the learned
rules. -/
def Agrees (stored declared : Option CapabilityContract) : Prop :=
  (declared = none → stored = none) ∧
    ∀ cap, declared = some cap → ∃ cap', stored = some cap' ∧ SameDeclaration cap cap'

/-- **Updates undo nothing.** At every moment of the run every id has the contract last
declared for it, and none after a deregistration. -/
def DeclarationsKept (updates : ℕ → Update) (actions : List Action) : Prop :=
  ∀ before rest s, actions = before ++ rest → Runs updates before s →
    ∀ id, Agrees (s.registry.store.lookup id) (declared id before)

/-- Whenever an update writes back, the id is still stored as the update has read it, up
to the reputation and the learned rules. -/
def WritesBackCurrent (updates : ℕ → Update) (actions : List Action) : Prop :=
  ∀ before k rest s cap, actions = before ++ .writeBack k :: rest → Runs updates before s →
    s.phase k = .fetched cap →
      ∃ stored, s.registry.store.lookup (updates k).id = some stored ∧ SameDeclaration cap stored

theorem declared_concat (id : CapabilityId) (actions : List Action) (a : Action) :
    declared id (actions ++ [a]) = declare id (declared id actions) a := by
  rw [declared, List.foldl_append]
  rfl

/-! ## Ids -/

/-- Contracts are stored, and read, under their own id. -/
structure Keyed (updates : ℕ → Update) (s : Shared) : Prop where
  stored : ∀ id cap, s.registry.store.lookup id = some cap → cap.id = id
  fetched : ∀ k cap, s.phase k = .fetched cap → cap.id = (updates k).id

theorem lookup_upsert_id {r : Registry} (h : ∀ id cap, r.lookup id = some cap → cap.id = id)
    (new : CapabilityContract) :
    ∀ id cap, (r.upsert new).lookup id = some cap → cap.id = id := by
  intro id cap hstored
  rw [Registry.upsert] at hstored
  by_cases hid : id = new.id
  · rw [hid, AList.lookup_insert] at hstored
    cases hstored
    exact hid.symm
  · rw [AList.lookup_insert_ne hid] at hstored
    exact h id cap hstored

theorem rateLimit_store (r : RatedRegistry) (now : ℤ) (id : CapabilityId) :
    (r.rateLimit now id).2.store = r.store := by
  rw [RatedRegistry.rateLimit]
  split <;> rfl

theorem afterLimit_ne_fetched (result : Except RegistryError Unit) (cap : CapabilityContract) :
    afterLimit result ≠ .fetched cap := by
  intro h
  rcases result with e | u <;> cases h

theorem Keyed.step {s t : Shared} {a : Action} (h : Keyed updates s)
    (hstep : Stepped updates s a t) : Keyed updates t := by
  -- an update that takes no contract along keeps the others' contracts
  have hother : ∀ (k : ℕ) (next : Phase),
      (∀ cap, next = .fetched cap → cap.id = (updates k).id) →
        ∀ j cap, Function.update s.phase k next j = .fetched cap → cap.id = (updates j).id := by
    intro k next hnext j cap hj
    by_cases hjk : j = k
    · subst hjk
      rw [Function.update_self] at hj
      exact hnext cap hj
    · rw [Function.update_of_ne hjk] at hj
      exact h.fetched j cap hj
  cases hstep with
  | @limited k now hidle =>
    refine ⟨?_, hother k _ fun cap hcap => absurd hcap (afterLimit_ne_fetched _ cap)⟩
    rw [rateLimit_store]
    exact h.stored
  | @fetched k hadmitted =>
    refine ⟨h.stored, hother k _ fun cap hcap => ?_⟩
    rw [Registry.get] at hcap
    rcases hstored : s.registry.store.lookup (updates k).id with _ | cap'
    · rw [hstored] at hcap
      cases hcap
    · rw [hstored] at hcap
      cases hcap
      exact h.stored _ _ hstored
  | @wrote k cap hfetched =>
    refine ⟨lookup_upsert_id h.stored _, hother k _ fun cap' hcap => ?_⟩
    cases hcap
  | registered cap =>
    refine ⟨?_, h.fetched⟩
    rcases hvalid : cap.validate with e | u
    · rw [RegistrationServices.store_register_of_error hvalid]
      exact h.stored
    · rw [RegistrationServices.store_register_of_ok hvalid]
      exact lookup_upsert_id h.stored cap
  | deregistered gone =>
    refine ⟨fun id cap hstored => ?_, h.fetched⟩
    rw [Registry.deregister] at hstored
    by_cases hid : id = gone
    · rw [hid, AList.lookup_erase] at hstored
      cases hstored
    · rw [AList.lookup_erase_ne hid] at hstored
      exact h.stored id cap hstored

theorem Runs.keyed {actions : List Action} {s : Shared} (h : Runs updates actions s) :
    Keyed updates s := by
  refine Loop.foldlM_ok (I := fun _ s => Keyed updates s) ⟨fun id cap hstored => ?_,
    fun k cap hphase => ?_⟩ (fun _ _ _ _ hI hstep => hI.step (step_cases hstep)) h
  · cases hstored
  · cases hphase

/-! ## When a change is undone -/

/-- A step other than a write-back keeps the store in agreement with the
declarations. -/
theorem Agrees.step {s t : Shared} {a : Action} {id : CapabilityId} {actions : List Action}
    (h : Agrees (s.registry.store.lookup id) (declared id actions))
    (hstep : Stepped updates s a t) (hwrite : ∀ k, a ≠ .writeBack k) :
    Agrees (t.registry.store.lookup id) (declared id (actions ++ [a])) := by
  rw [declared_concat]
  cases hstep with
  | limited now hidle =>
    rw [rateLimit_store]
    exact h
  | fetched hadmitted => exact h
  | @wrote k cap hfetched => exact absurd rfl (hwrite k)
  | registered cap =>
    rw [declare]
    rcases hvalid : cap.validate with e | u
    · have hrefused : ¬ (cap.id = id ∧ (Except.error e : Except ContractError Unit) = .ok ()) := by
        rintro ⟨-, hok⟩
        cases hok
      rw [RegistrationServices.store_register_of_error hvalid, if_neg hrefused]
      exact h
    · rw [RegistrationServices.store_register_of_ok hvalid]
      by_cases hid : id = cap.id
      · subst hid
        rw [if_pos ⟨rfl, rfl⟩]
        refine ⟨fun hnone => ?_, fun cap' hcap' => ?_⟩
        · cases hnone
        · cases hcap'
          exact ⟨cap, AList.lookup_insert _, .refl cap⟩
      · rw [if_neg fun hboth => hid hboth.1.symm, Registry.upsert, AList.lookup_insert_ne hid]
        exact h
  | deregistered gone =>
    rw [declare, Registry.deregister]
    by_cases hid : id = gone
    · subst hid
      rw [if_pos rfl, AList.lookup_erase]
      refine ⟨fun _ => rfl, fun cap hcap => ?_⟩
      cases hcap
    · rw [if_neg fun heq => hid heq.symm, AList.lookup_erase_ne hid]
      exact h

/-- A write-back of a contract that is still current changes no declaration. -/
theorem Agrees.writeBack {stored last : Option CapabilityContract} {cap now : CapabilityContract}
    (h : Agrees stored last) (hstored : stored = some now) (hsame : SameDeclaration cap now)
    (score : F64) (evidence : LearnedRuleRef) :
    Agrees (some (cap.rescored score evidence)) last := by
  refine ⟨fun hnone => ?_, fun c hc => ?_⟩
  · rw [h.1 hnone] at hstored
    cases hstored
  · obtain ⟨cap', hcap', hdeclared⟩ := h.2 c hc
    rw [hstored] at hcap'
    cases hcap'
    exact ⟨_, rfl, (hdeclared.trans hsame.symm).trans (sameDeclaration_rescored cap score evidence)⟩

/-- A write-back that changes no declaration wrote a contract that was still current. -/
theorem Agrees.current {stored last : Option CapabilityContract} {cap : CapabilityContract}
    {score : F64} {evidence : LearnedRuleRef} (h : Agrees stored last)
    (hafter : Agrees (some (cap.rescored score evidence)) last) :
    ∃ now, stored = some now ∧ SameDeclaration cap now := by
  rcases last with _ | c
  · cases hafter.1 rfl
  · obtain ⟨now, hnow, hdeclared⟩ := h.2 c rfl
    obtain ⟨cap', hcap', hdeclared'⟩ := hafter.2 c rfl
    cases hcap'
    exact ⟨now, hnow,
      ((sameDeclaration_rescored cap score evidence).trans hdeclared'.symm).trans hdeclared⟩

/-- **Lost updates.** In every interleaving of updates with registrations and
deregistrations, nothing that was declared is undone exactly when every update writes
back a contract that is still the current one. -/
theorem declarationsKept_iff (updates : ℕ → Update) (actions : List Action) :
    DeclarationsKept updates actions ↔ WritesBackCurrent updates actions := by
  refine ⟨fun h before k rest s cap hsplit hs hfetched => ?_, fun h before => ?_⟩
  · have hstep : step updates s (.writeBack k) = .ok
        ⟨⟨s.registry.store.upsert (cap.rescored (updates k).newScore (updates k).evidence),
          s.registry.reputationRate⟩, Function.update s.phase k (.done (.ok ()))⟩ := by
      rw [step, hfetched]
    have hbefore := h before (.writeBack k :: rest) s hsplit hs (updates k).id
    have hafter := h (before ++ [.writeBack k]) rest _ (by simp [hsplit])
      (runs_concat_iff.mpr ⟨s, hs, hstep⟩) (updates k).id
    have hid : (updates k).id =
        (cap.rescored (updates k).newScore (updates k).evidence).id :=
      (hs.keyed.fetched k cap hfetched).symm
    rw [declared_concat, Registry.upsert, ← hid, AList.lookup_insert] at hafter
    exact hbefore.current hafter
  · induction before using List.reverseRecOn with
    | nil =>
      intro rest s _ hs id
      cases hs
      exact ⟨fun _ => rfl, fun cap hcap => by cases hcap⟩
    | append_singleton before a ih =>
      intro rest t hsplit ht id
      obtain ⟨s, hs, hstep⟩ := runs_concat_iff.mp ht
      have hcut : actions = before ++ a :: rest := by simp [hsplit]
      have hagrees := ih (a :: rest) s hcut hs id
      by_cases hwrite : ∃ k, a = .writeBack k
      · obtain ⟨k, rfl⟩ := hwrite
        cases step_cases hstep with
        | @wrote _ cap hfetched =>
          obtain ⟨now, hnow, hsame⟩ := h before k rest s cap hcut hs hfetched
          have hkey : (updates k).id =
              (cap.rescored (updates k).newScore (updates k).evidence).id :=
            (hs.keyed.fetched k cap hfetched).symm
          rw [declared_concat, Registry.upsert, ← hkey]
          by_cases hid : id = (updates k).id
          · subst hid
            rw [AList.lookup_insert]
            exact hagrees.writeBack hnow hsame _ _
          · rw [AList.lookup_insert_ne hid]
            exact hagrees
      · exact hagrees.step (step_cases hstep) fun k hk => hwrite ⟨k, hk⟩

/-- Update number zero reads the contract, and then it is deregistered. -/
def resurrecting : List Action :=
  [.register (.plain ⟨"cap-stock"⟩ "stock"), .rateLimit 0 0, .fetch 0, .deregister ⟨"cap-stock"⟩,
    .writeBack 0]

/-- The write-back brings the capability back. -/
theorem resurrecting_not_kept :
    ¬ DeclarationsKept (fun _ => ⟨⟨"cap-stock"⟩, .finite 1, ⟨"rule", .miner, 0, 1⟩⟩)
      resurrecting := by
  intro h
  have hagrees := h resurrecting [] _ (List.append_nil _).symm rfl ⟨"cap-stock"⟩
  cases hagrees.1 rfl

end ReputationRace

end Aaf
