import Aaf.Machine
import Aaf.Registry

/-!
# Reputation and the registration pipeline

The rest of `Registry` (`aaf-registry`): the rate limiter in front of
`update_reputation`, which reads a contract, changes two of its fields and writes it
back, and `RegistrationPipeline`, which checks a contract, its health and its id before
it registers it and gives the id an initial trust.

Four calls write to the store. Each keeps Rule 9, since each contract was validated when
it came in and no update touches what validation reads. The bound on the reputation is
kept by the updates only: `allLawful_after_iff`.
-/

namespace Aaf

/-! ## Reputation updates -/

/-- Minimum interval between reputation updates of one capability: 60 seconds. -/
def reputationRateLimit : ℤ := 60000000000

/-- `Registry` with the instants its rate limiter keeps. -/
structure RatedRegistry where
  store : Registry
  reputationRate : HashMap CapabilityId ℤ

/-- `RegistryStore::upsert`, in memory. -/
def Registry.upsert (r : Registry) (cap : CapabilityContract) : Registry := r.insert cap.id cap

/-- The contract `update_reputation` writes back. -/
def CapabilityContract.rescored (cap : CapabilityContract) (newScore : F64)
    (evidence : LearnedRuleRef) : CapabilityContract :=
  { cap with
    reputation := newScore.clamp 0 (.finite 1)
    learnedRules := cap.learnedRules ++ [evidence] }

namespace RatedRegistry

/-- `Registry::in_memory`. -/
def inMemory : RatedRegistry := ⟨.inMemory, ∅⟩

/-- An update at `now` comes too soon after the last one of the id. -/
def TooSoon (r : RatedRegistry) (now : ℤ) (id : CapabilityId) : Prop :=
  ∃ last ∈ r.reputationRate.lookup id, now - last < reputationRateLimit

instance (r : RatedRegistry) (now : ℤ) (id : CapabilityId) : Decidable (r.TooSoon now id) :=
  inferInstanceAs (Decidable (∃ last ∈ r.reputationRate.lookup id, _))

/-- The rate limit check of `update_reputation`. -/
def rateLimit (r : RatedRegistry) (now : ℤ) (id : CapabilityId) :
    Except RegistryError Unit × RatedRegistry :=
  if r.TooSoon now id then (.error (.rateLimited id.raw), r)
  else (.ok (), { r with reputationRate := r.reputationRate.insert id now })

/-- `Registry::update_reputation`. -/
def updateReputation (r : RatedRegistry) (now : ℤ) (id : CapabilityId) (newScore : F64)
    (evidence : LearnedRuleRef) : Except RegistryError Unit × RatedRegistry :=
  match r.rateLimit now id with
  | (.error e, r) => (.error e, r)
  | (.ok (), r) =>
    match r.store.get id with
    | .error e => (.error e, r)
    | .ok cap => (.ok (), { r with store := r.store.upsert (cap.rescored newScore evidence) })

end RatedRegistry

/-! ## Initial trust -/

/-- Graded autonomy. -/
inductive AutonomyLevel : Type where
  | level1 : AutonomyLevel
  | level2 : AutonomyLevel
  | level3 : AutonomyLevel
  | level4 : AutonomyLevel
  | level5 : AutonomyLevel
  deriving DecidableEq, Repr

/-- `AutonomyLevel::as_u8`. The derived order is the order of these numbers. -/
def AutonomyLevel.asU8 : AutonomyLevel → ℕ
  | .level1 => 1
  | .level2 => 2
  | .level3 => 3
  | .level4 => 4
  | .level5 => 5

/-- `AutonomyLevel::from_u8`, clamping. -/
def AutonomyLevel.fromU8 : ℕ → AutonomyLevel
  | 0 => .level1
  | 1 => .level1
  | 2 => .level2
  | 3 => .level3
  | 4 => .level4
  | _ => .level5

/-- Trust score with its autonomy level. -/
structure TrustScore where
  value : F64
  autonomy : AutonomyLevel
  deriving DecidableEq, Repr

/-- `TrustScore::initial`. -/
def TrustScore.initial : TrustScore := ⟨.finite (1 / 2), .level1⟩

/-- Counters of the observed events. -/
structure ScoreHistory where
  total : ℕ
  success : ℕ
  humanOverride : ℕ
  policyViolations : ℕ
  lastUpdated : Option ℤ
  deriving DecidableEq, Repr

/-- What the trust registry keeps of an agent. -/
structure TrustRecord where
  score : TrustScore
  history : ScoreHistory
  deriving DecidableEq, Repr

/-- `TrustRegistry`: its table. -/
abbrev TrustRegistry : Type := HashMap AgentId TrustRecord

/-- `TrustRegistry::register`: a fresh record, whatever was there. -/
def TrustRegistry.register (t : TrustRegistry) (agent : AgentId) : TrustRegistry :=
  t.insert agent ⟨.initial, ⟨0, 0, 0, 0, none⟩⟩

/-- `TrustRegistry::get`. -/
def TrustRegistry.get (t : TrustRegistry) (agent : AgentId) : TrustScore :=
  match t.lookup agent with
  | some record => record.score
  | none => .initial

/-! ## The pipeline -/

/-- Errors of the registration pipeline. -/
inductive RegistrationError : Type where
  | registry (e : RegistryError) : RegistrationError
  | conflict (id : String) : RegistrationError
  | healthCheckFailed (id reason : String) : RegistrationError
  deriving DecidableEq, Repr

/-- Result of a successful registration. -/
structure RegistrationResult where
  capabilityId : String
  replaced : Bool
  initialTrust : F64
  healthOk : Bool
  deriving DecidableEq, Repr

/-- Health check hook. -/
abbrev HealthCheck : Type := CapabilityContract → Except String Unit

/-- The registry and the trust registry the pipeline works on. -/
structure RegistrationServices where
  registry : RatedRegistry
  trust : TrustRegistry

/-- Registration in the registry and in the trust registry, the last steps. -/
def RegistrationServices.enter (s : RegistrationServices) (cap : CapabilityContract)
    (replaced : Bool) : Except RegistrationError RegistrationResult × RegistrationServices :=
  match s.registry.store.register cap with
  | (.error e, store) => (.error (.registry e), { s with registry.store := store })
  | (.ok (), store) =>
    let trust := s.trust.register ⟨cap.id.raw⟩
    (.ok ⟨cap.id.raw, replaced, (trust.get ⟨cap.id.raw⟩).value, true⟩,
      ⟨{ s.registry with store := store }, trust⟩)

/-- `RegistrationPipeline::register`. -/
def RegistrationPipeline.register (healthCheck : HealthCheck) (s : RegistrationServices)
    (cap : CapabilityContract) (force : Bool) :
    Except RegistrationError RegistrationResult × RegistrationServices :=
  match cap.validate with
  | .error e => (.error (.registry (.invalid e)), s)
  | .ok () =>
    match healthCheck cap with
    | .error reason => (.error (.healthCheckFailed cap.id.raw reason), s)
    | .ok () =>
      match s.registry.store.get cap.id with
      | .ok _ => if force then s.enter cap true else (.error (.conflict cap.id.raw), s)
      | .error _ => s.enter cap false

/-! ## Calls, one after the other -/

/-- A call to the registry or to the pipeline. An update reads the clock, and the health
check of a pipeline is asked when it registers. -/
inductive RegistryCall : Type where
  | register (cap : CapabilityContract) : RegistryCall
  | deregister (id : CapabilityId) : RegistryCall
  | updateReputation (now : ℤ) (id : CapabilityId) (newScore : F64) (evidence : LearnedRuleRef) :
      RegistryCall
  | pipeline (healthCheck : HealthCheck) (cap : CapabilityContract) (force : Bool) : RegistryCall

/-- The answer to a call. -/
inductive RegistryReply : Type where
  | registry (r : Except RegistryError Unit) : RegistryReply
  | pipeline (r : Except RegistrationError RegistrationResult) : RegistryReply

namespace RegistrationServices

/-- An empty registry, and nobody trusted yet. -/
def inMemory : RegistrationServices := ⟨.inMemory, ∅⟩

/-- The same services over another store. -/
def withStore (s : RegistrationServices) (store : Registry) : RegistrationServices :=
  { s with registry := { s.registry with store := store } }

/-- One call. -/
def exec (s : RegistrationServices) : RegistryCall → RegistryReply × RegistrationServices
  | .register cap =>
    (.registry (s.registry.store.register cap).1, s.withStore (s.registry.store.register cap).2)
  | .deregister id =>
    (.registry (s.registry.store.deregister id).1, s.withStore (s.registry.store.deregister id).2)
  | .updateReputation now id newScore evidence =>
    (.registry (s.registry.updateReputation now id newScore evidence).1,
      { s with registry := (s.registry.updateReputation now id newScore evidence).2 })
  | .pipeline healthCheck cap force =>
    (.pipeline (RegistrationPipeline.register healthCheck s cap force).1,
      (RegistrationPipeline.register healthCheck s cap force).2)

/-- The services after the calls, from an empty registry. -/
def after (calls : List RegistryCall) : RegistrationServices := Machine.run exec inMemory calls

/-- The call registers `cap`: it passes validation and, in the pipeline, the health check
and the conflict check. -/
def Registers (s : RegistrationServices) (cap : CapabilityContract) : RegistryCall → Prop
  | .register cap' => cap' = cap ∧ cap.validate = .ok ()
  | .pipeline healthCheck cap' force =>
    cap' = cap ∧ cap.validate = .ok () ∧ healthCheck cap = .ok () ∧
      (force = true ∨ s.registry.store.lookup cap.id = none)
  | _ => False

/-- The call gives a stored contract the score `score`: it is an update that the rate
limiter lets through. -/
def Rescores (s : RegistrationServices) (cap : CapabilityContract) (score : F64) :
    RegistryCall → Prop
  | .updateReputation now id newScore _ =>
    newScore = score ∧ ¬ s.registry.TooSoon now id ∧ s.registry.store.lookup id = some cap
  | _ => False

/-! ## What a call does to the store -/

/-- The stores a call can lead to. -/
inductive Stores (s : RegistrationServices) (call : RegistryCall) : Registry → Prop
  | same : Stores s call s.registry.store
  | removed (id : CapabilityId) : Stores s call (s.registry.store.erase id)
  | registered (cap : CapabilityContract) (h : s.Registers cap call) :
      Stores s call (s.registry.store.upsert cap)
  | rescored (cap : CapabilityContract) (score : F64) (evidence : LearnedRuleRef)
      (h : s.Rescores cap score call) :
      Stores s call (s.registry.store.upsert (cap.rescored score evidence))

theorem store_register_of_ok {r : Registry} {cap : CapabilityContract}
    (h : cap.validate = .ok ()) : r.register cap = (.ok (), r.upsert cap) := by
  rw [Registry.register, h]
  rfl

theorem store_register_of_error {r : Registry} {cap : CapabilityContract} {e : ContractError}
    (h : cap.validate = .error e) : r.register cap = (.error (.invalid e), r) := by
  rw [Registry.register, h]

theorem store_get_of_some {r : Registry} {id : CapabilityId} {cap : CapabilityContract}
    (h : r.lookup id = some cap) : r.get id = .ok cap := by
  rw [Registry.get, h]

theorem store_get_of_none {r : Registry} {id : CapabilityId} (h : r.lookup id = none) :
    r.get id = .error (.storage (.notFound id.raw)) := by
  rw [Registry.get, h]

theorem store_enter {s : RegistrationServices} {cap : CapabilityContract} (replaced : Bool)
    (h : cap.validate = .ok ()) :
    (s.enter cap replaced).2.registry.store = s.registry.store.upsert cap := by
  rw [enter, store_register_of_ok h]

/-- The pipeline registers what passes its three checks, and nothing else. -/
theorem store_pipeline (s : RegistrationServices) (healthCheck : HealthCheck)
    (cap : CapabilityContract) (force : Bool) :
    (s.Registers cap (.pipeline healthCheck cap force) ∧
      (RegistrationPipeline.register healthCheck s cap force).2.registry.store =
        s.registry.store.upsert cap) ∨
    (¬ s.Registers cap (.pipeline healthCheck cap force) ∧
      (RegistrationPipeline.register healthCheck s cap force).2 = s) := by
  rw [RegistrationPipeline.register]
  rcases hvalid : cap.validate with e | u
  · refine Or.inr ⟨?_, rfl⟩
    rintro ⟨-, hok, -, -⟩
    rw [hvalid] at hok
    cases hok
  · rcases hhealth : healthCheck cap with reason | u'
    · refine Or.inr ⟨?_, rfl⟩
      rintro ⟨-, -, hok, -⟩
      rw [hhealth] at hok
      cases hok
    · rcases hstored : s.registry.store.lookup cap.id with _ | old
      · refine Or.inl ⟨⟨rfl, hvalid, hhealth, Or.inr hstored⟩, ?_⟩
        simp only [store_get_of_none hstored]
        exact store_enter false hvalid
      · rw [store_get_of_some hstored]
        cases force with
        | true =>
          refine Or.inl ⟨⟨rfl, hvalid, hhealth, Or.inl rfl⟩, ?_⟩
          simp only [if_true]
          exact store_enter true hvalid
        | false =>
          refine Or.inr ⟨?_, by simp⟩
          rintro ⟨-, -, -, hforce | hfree⟩
          · cases hforce
          · rw [hstored] at hfree
            cases hfree

/-- An update writes back what it rescored, when the rate limiter and the store let it. -/
theorem store_updateReputation (r : RatedRegistry) (now : ℤ) (id : CapabilityId) (newScore : F64)
    (evidence : LearnedRuleRef) :
    (∃ cap, ¬ r.TooSoon now id ∧ r.store.lookup id = some cap ∧
      (r.updateReputation now id newScore evidence).2.store =
        r.store.upsert (cap.rescored newScore evidence)) ∨
    ((r.TooSoon now id ∨ r.store.lookup id = none) ∧
      (r.updateReputation now id newScore evidence).2.store = r.store) := by
  rw [RatedRegistry.updateReputation, RatedRegistry.rateLimit]
  by_cases hsoon : r.TooSoon now id
  · rw [if_pos hsoon]
    exact Or.inr ⟨Or.inl hsoon, rfl⟩
  · rw [if_neg hsoon]
    rcases hstored : r.store.lookup id with _ | cap
    · refine Or.inr ⟨Or.inr rfl, ?_⟩
      simp only [store_get_of_none hstored]
    · refine Or.inl ⟨cap, hsoon, rfl, ?_⟩
      simp only [store_get_of_some hstored]

theorem store_exec_register (s : RegistrationServices) (cap : CapabilityContract) :
    (s.exec (.register cap)).2.registry.store = (s.registry.store.register cap).2 := by
  rw [exec, withStore]

theorem store_exec_updateReputation (s : RegistrationServices) (now : ℤ) (id : CapabilityId)
    (newScore : F64) (evidence : LearnedRuleRef) :
    (s.exec (.updateReputation now id newScore evidence)).2.registry.store =
      (s.registry.updateReputation now id newScore evidence).2.store := by
  rw [exec]

theorem exec_pipeline (s : RegistrationServices) (healthCheck : HealthCheck)
    (cap : CapabilityContract) (force : Bool) :
    (s.exec (.pipeline healthCheck cap force)).2 =
      (RegistrationPipeline.register healthCheck s cap force).2 := by
  rw [exec]

theorem exec_stores (s : RegistrationServices) (call : RegistryCall) :
    Stores s call (s.exec call).2.registry.store := by
  cases call with
  | register cap =>
    rw [store_exec_register]
    rcases hvalid : cap.validate with e | u
    · rw [store_register_of_error hvalid]
      exact .same
    · rw [store_register_of_ok hvalid]
      exact .registered cap ⟨rfl, hvalid⟩
  | deregister id => exact .removed id
  | updateReputation now id newScore evidence =>
    rw [store_exec_updateReputation]
    rcases store_updateReputation s.registry now id newScore evidence with
      ⟨cap, hsoon, hstored, heq⟩ | ⟨-, heq⟩
    · rw [heq]
      exact .rescored cap newScore evidence ⟨rfl, hsoon, hstored⟩
    · rw [heq]
      exact .same
  | pipeline healthCheck cap force =>
    rw [exec_pipeline]
    rcases store_pipeline s healthCheck cap force with ⟨hregisters, heq⟩ | ⟨-, heq⟩
    · rw [heq]
      exact .registered cap hregisters
    · rw [heq]
      exact .same

theorem store_of_registers {s : RegistrationServices} {call : RegistryCall}
    {cap : CapabilityContract} (h : s.Registers cap call) :
    (s.exec call).2.registry.store = s.registry.store.upsert cap := by
  cases call with
  | register cap' =>
    obtain ⟨rfl, hvalid⟩ := h
    rw [store_exec_register]
    rw [store_register_of_ok hvalid]
  | deregister id => exact h.elim
  | updateReputation now id newScore evidence => exact h.elim
  | pipeline healthCheck cap' force =>
    obtain rfl : cap' = cap := h.1
    rw [exec_pipeline]
    rcases store_pipeline s healthCheck cap' force with ⟨-, heq⟩ | ⟨hnot, -⟩
    · exact heq
    · exact absurd h hnot

theorem store_of_rescores {s : RegistrationServices} {call : RegistryCall}
    {cap : CapabilityContract} {score : F64} (h : s.Rescores cap score call) :
    ∃ evidence, (s.exec call).2.registry.store =
      s.registry.store.upsert (cap.rescored score evidence) := by
  cases call with
  | register cap' => exact h.elim
  | deregister id => exact h.elim
  | pipeline healthCheck cap' force => exact h.elim
  | updateReputation now id newScore evidence =>
    obtain ⟨rfl, hsoon, hstored⟩ := h
    refine ⟨evidence, ?_⟩
    rw [store_exec_updateReputation]
    rcases store_updateReputation s.registry now id newScore evidence with
      ⟨cap', -, hstored', heq⟩ | ⟨hrefused, -⟩
    · rw [hstored] at hstored'
      cases hstored'
      exact heq
    · rcases hrefused with hrefused | hrefused
      · exact absurd hrefused hsoon
      · rw [hstored] at hrefused
        cases hrefused

end RegistrationServices

/-! ## The contract's own rules -/

/-- A reputation in `[0, 1]`. -/
def InUnit (score : F64) : Prop := F64.le 0 score = true ∧ F64.le score (.finite 1) = true

instance (score : F64) : Decidable (InUnit score) := inferInstanceAs (Decidable (_ ∧ _))

/-- Clamping brings every number into the unit interval. -/
theorem inUnit_clamp_iff (score : F64) :
    InUnit (score.clamp 0 (.finite 1)) ↔ score ≠ .nan := by
  cases score with
  | finite q =>
    refine ⟨fun _ h => ?_, fun _ => ?_⟩
    · cases h
    · rw [F64.clamp, F64.zero_eq, F64.finite_lt, F64.finite_lt]
      by_cases hlow : q < 0
      · rw [if_pos (decide_eq_true hlow)]
        decide +kernel
      · rw [if_neg (by simpa using hlow)]
        by_cases hhigh : 1 < q
        · rw [if_pos (decide_eq_true hhigh)]
          decide +kernel
        · rw [if_neg (by simpa using hhigh)]
          rw [InUnit, F64.zero_eq, F64.finite_le, F64.finite_le]
          exact ⟨decide_eq_true (not_lt.mp hlow), decide_eq_true (not_lt.mp hhigh)⟩
  | posInf => decide +kernel
  | negInf => decide +kernel
  | nan => decide +kernel

/-- The contract obeys its own rules: Rule 9 and the range of the reputation. -/
def CapabilityContract.Lawful (cap : CapabilityContract) : Prop :=
  cap.validate = .ok () ∧ InUnit cap.reputation

/-- Whatever the store's order, everything it lists is lawful. -/
def Registry.AllLawful (r : Registry) : Prop := ∀ order : ListOrder, ∀ cap ∈ r.list order, cap.Lawful

theorem Registry.allLawful_iff {r : Registry} :
    r.AllLawful ↔ ∀ id cap, r.lookup id = some cap → cap.Lawful := by
  refine ⟨fun h id cap hstored => ?_, fun h order cap hlisted => ?_⟩
  · exact h ⟨fun l => l, fun l => .refl l⟩ cap ((mem_list _).mpr ⟨id, hstored⟩)
  · obtain ⟨id, hstored⟩ := (mem_list order).mp hlisted
    exact h id cap hstored

theorem Registry.AllLawful.upsert {r : Registry} {cap : CapabilityContract} (h : r.AllLawful)
    (hcap : cap.Lawful) : (r.upsert cap).AllLawful := by
  rw [allLawful_iff] at h ⊢
  intro id cap' hstored
  rw [Registry.upsert] at hstored
  by_cases hid : id = cap.id
  · rw [hid, AList.lookup_insert] at hstored
    cases hstored
    exact hcap
  · rw [AList.lookup_insert_ne hid] at hstored
    exact h id cap' hstored

theorem Registry.AllLawful.erase {r : Registry} (h : r.AllLawful) (gone : CapabilityId) :
    Registry.AllLawful (AList.erase gone r) := by
  rw [allLawful_iff] at h ⊢
  intro id cap hstored
  by_cases hid : id = gone
  · rw [hid, AList.lookup_erase] at hstored
    cases hstored
  · rw [AList.lookup_erase_ne hid] at hstored
    exact h id cap hstored

/-- An update touches nothing that validation reads. -/
theorem CapabilityContract.validate_rescored (cap : CapabilityContract) (score : F64)
    (evidence : LearnedRuleRef) : (cap.rescored score evidence).validate = cap.validate := rfl

namespace RegistrationServices

/-- **Scores come in range.** Every contract that gets registered carries a reputation in
`[0, 1]`, and no update that goes through carries a `NaN`. -/
def ScoresInRange (calls : List RegistryCall) : Prop :=
  ∀ pre call post, calls = pre ++ call :: post →
    (∀ cap, (after pre).Registers cap call → InUnit cap.reputation) ∧
    ∀ cap score, (after pre).Rescores cap score call → score ≠ .nan

theorem Registers.validate {s : RegistrationServices} {cap : CapabilityContract}
    {call : RegistryCall} (h : s.Registers cap call) : cap.validate = .ok () := by
  cases call with
  | register cap' => exact h.2
  | pipeline healthCheck cap' force => exact h.2.1
  | deregister id => exact h.elim
  | updateReputation now id newScore evidence => exact h.elim

theorem Rescores.stored {s : RegistrationServices} {cap : CapabilityContract} {score : F64}
    {call : RegistryCall} (h : s.Rescores cap score call) :
    ∃ id, s.registry.store.lookup id = some cap := by
  cases call with
  | register cap' => exact h.elim
  | pipeline healthCheck cap' force => exact h.elim
  | deregister id => exact h.elim
  | updateReputation now id newScore evidence => exact ⟨id, h.2.2⟩

/-- One call keeps the store lawful, when the scores it brings are in range. -/
theorem allLawful_exec {s : RegistrationServices} {call : RegistryCall}
    (h : s.registry.store.AllLawful)
    (hregisters : ∀ cap, s.Registers cap call → InUnit cap.reputation)
    (hrescores : ∀ cap score, s.Rescores cap score call → score ≠ .nan) :
    (s.exec call).2.registry.store.AllLawful := by
  have hstores := exec_stores s call
  generalize (s.exec call).2.registry.store = store at hstores ⊢
  cases hstores with
  | same => exact h
  | removed id => exact h.erase id
  | registered cap hcap => exact h.upsert ⟨hcap.validate, hregisters cap hcap⟩
  | rescored cap score evidence hcap =>
    obtain ⟨id, hstored⟩ := hcap.stored
    refine h.upsert ⟨?_, (inUnit_clamp_iff score).mpr (hrescores cap score hcap)⟩
    rw [CapabilityContract.validate_rescored]
    exact (Registry.allLawful_iff.mp h id cap hstored).1

/-- And only then. -/
theorem allLawful_exec_iff {s : RegistrationServices} (call : RegistryCall)
    (h : s.registry.store.AllLawful) :
    (s.exec call).2.registry.store.AllLawful ↔
      (∀ cap, s.Registers cap call → InUnit cap.reputation) ∧
        ∀ cap score, s.Rescores cap score call → score ≠ .nan := by
  refine ⟨fun hnext => ⟨fun cap hcap => ?_, fun cap score hcap => ?_⟩, fun hscores => ?_⟩
  · rw [store_of_registers hcap] at hnext
    exact (Registry.allLawful_iff.mp hnext cap.id cap (AList.lookup_insert _)).2
  · obtain ⟨evidence, hstore⟩ := store_of_rescores hcap
    rw [hstore] at hnext
    exact (inUnit_clamp_iff score).mp
      (Registry.allLawful_iff.mp hnext _ _ (AList.lookup_insert _)).2
  · exact allLawful_exec h hscores.1 hscores.2

/-- **The contract's own rules.** From an empty registry, everything listed after any of
the calls validates and has its reputation in `[0, 1]`, exactly when the scores come in
range: no registration looks at the reputation it stores. -/
theorem allLawful_after_iff (calls : List RegistryCall) :
    (∀ pre post, calls = pre ++ post → (after pre).registry.store.AllLawful) ↔
      ScoresInRange calls := by
  have hstart : inMemory.registry.store.AllLawful := by
    rw [Registry.allLawful_iff]
    intro id cap hstored
    cases hstored
  have hsteps : (∀ pre post, calls = pre ++ post → (after pre).registry.store.AllLawful) ↔
      ∀ st ∈ Machine.trace exec inMemory calls,
        (∀ cap, st.before.Registers cap st.call → InUnit cap.reputation) ∧
          ∀ cap score, st.before.Rescores cap score st.call → score ≠ .nan := by
    refine Machine.forall_run_iff (I := fun _ => True)
      (P := fun s : RegistrationServices => s.registry.store.AllLawful) (fun _ => trivial) hstart
      (fun s call _ h => ?_) calls
    exact allLawful_exec_iff call h
  exact hsteps.trans Machine.forall_trace_iff

/-- A contract that claims seven times the best reputation. -/
def boasting : CapabilityContract :=
  { CapabilityContract.plain ⟨"cap-boast"⟩ "boast" with reputation := .finite 7 }

/-- It is registered as it is. -/
theorem boasting_not_lawful :
    ¬ ∀ pre post, [.register boasting] = pre ++ post → (after pre).registry.store.AllLawful := by
  intro h
  have hlawful := h [.register boasting] [] rfl
  have hstored : (after [.register boasting]).registry.store.lookup ⟨"cap-boast"⟩ =
      some boasting := rfl
  have hunit := (Registry.allLawful_iff.mp hlawful _ _ hstored).2
  revert hunit
  decide +kernel

end RegistrationServices

end Aaf
