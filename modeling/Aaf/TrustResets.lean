import Aaf.Trust

/-!
# Registration resets trust

`RegistrationPipeline::register` gives the id it registers an initial trust, with or without
`force`, and whatever its record says. So a policy violation keeps an agent at the first
level up to the next registration of its id that goes through, and no further:
`violation_until_registered`.
-/

namespace Aaf

/-- A call to the pipeline or to the trust registry. -/
inductive TrustCall : Type where
  | register (healthCheck : HealthCheck) (cap : CapabilityContract) (force : Bool) : TrustCall
  | observe (now : ℤ) (agent : AgentId) (event : ScoreEvent) : TrustCall

/-- The answer to a call. -/
inductive TrustReply : Type where
  | registered (result : Except RegistrationError RegistrationResult) : TrustReply
  | observed (score : TrustScore) (decision : PromotionDecision) : TrustReply

namespace RegistrationServices

/-- One call. -/
def execTrust (s : RegistrationServices) : TrustCall → TrustReply × RegistrationServices
  | .register healthCheck cap force =>
    (.registered (RegistrationPipeline.register healthCheck s cap force).1,
      (RegistrationPipeline.register healthCheck s cap force).2)
  | .observe now agent event =>
    (.observed (s.trust.observe now agent event).1.1 (s.trust.observe now agent event).1.2,
      { s with trust := (s.trust.observe now agent event).2 })

/-- The step is a registration of the agent's id that goes through. -/
def GoesThrough (agent : AgentId) (st : Machine.Step RegistrationServices TrustCall TrustReply) :
    Prop :=
  ∃ healthCheck cap force result, st.call = .register healthCheck cap force ∧
    st.reply = .registered (.ok result) ∧ ⟨cap.id.raw⟩ = agent

theorem reply_register (s : RegistrationServices) (healthCheck : HealthCheck)
    (cap : CapabilityContract) (force : Bool) :
    (Machine.stepAt execTrust s (.register healthCheck cap force)).reply =
      .registered (RegistrationPipeline.register healthCheck s cap force).1 := by
  rw [Machine.stepAt, execTrust]

theorem services_register (s : RegistrationServices) (healthCheck : HealthCheck)
    (cap : CapabilityContract) (force : Bool) :
    (s.execTrust (.register healthCheck cap force)).2 =
      (RegistrationPipeline.register healthCheck s cap force).2 := by
  rw [execTrust]

theorem trust_observe (s : RegistrationServices) (now : ℤ) (agent : AgentId) (event : ScoreEvent) :
    (s.execTrust (.observe now agent event)).2.trust = (s.trust.observe now agent event).2 := by
  rw [execTrust]

/-! ## What a call does to the trust -/

theorem enter_trust (s : RegistrationServices) (cap : CapabilityContract) (replaced : Bool) :
    (∃ result, (s.enter cap replaced).1 = .ok result ∧
      (s.enter cap replaced).2.trust = s.trust.register ⟨cap.id.raw⟩) ∨
    (∃ e, (s.enter cap replaced).1 = .error e ∧ (s.enter cap replaced).2.trust = s.trust) := by
  rw [enter]
  rcases s.registry.store.register cap with ⟨e | u, store⟩
  · exact Or.inr ⟨_, rfl, rfl⟩
  · exact Or.inl ⟨_, rfl, rfl⟩

/-- A registration that goes through registers its id with the trust registry; any other
leaves the trust alone. -/
theorem register_trust (s : RegistrationServices) (healthCheck : HealthCheck)
    (cap : CapabilityContract) (force : Bool) :
    (∃ result, (RegistrationPipeline.register healthCheck s cap force).1 = .ok result ∧
      (RegistrationPipeline.register healthCheck s cap force).2.trust =
        s.trust.register ⟨cap.id.raw⟩) ∨
    (∃ e, (RegistrationPipeline.register healthCheck s cap force).1 = .error e ∧
      (RegistrationPipeline.register healthCheck s cap force).2.trust = s.trust) := by
  rw [RegistrationPipeline.register]
  rcases cap.validate with e | u
  · exact Or.inr ⟨_, rfl, rfl⟩
  · rcases healthCheck cap with reason | u'
    · exact Or.inr ⟨_, rfl, rfl⟩
    · rcases s.registry.store.get cap.id with e | old
      · dsimp only
        exact enter_trust s cap false
      · cases force with
        | true =>
          simp only [if_true]
          exact enter_trust s cap true
        | false =>
          exact Or.inr (by simp)

/-- The agent has a violation on record, and is at the first level. -/
structure Branded (agent : AgentId) (s : RegistrationServices) : Prop where
  violated : 0 < (s.trust.record agent).history.policyViolations
  level : (s.trust.get agent).autonomy = .level1

/-- Whatever is observed of it, an agent that has violated a policy is at the first level. -/
theorem branded_observe {s : RegistrationServices} {agent : AgentId} (now : ℤ) {event : ScoreEvent}
    (h : 0 < (s.trust.record agent).history.policyViolations ∨ event = .policyViolation) :
    Branded agent (s.execTrust (.observe now agent event)).2 := by
  have hviolated :
      0 < ((s.trust.record agent).history.observe now event).2.policyViolations := by
    rw [ScoreHistory.observe_policyViolations]
    rcases h with h | h
    · omega
    · rw [if_pos h]
      omega
  have hdrop : ∀ level, PromotionRules.default.evaluate level
      ((s.trust.record agent).history.observe now event).2 = .dropToFloor := fun level =>
    (PromotionRules.evaluate_eq_dropToFloor_iff level _).mpr hviolated
  have hrecord : (s.execTrust (.observe now agent event)).2.trust.record agent =
      ((s.trust.record agent).observe .default .default now event).2 := by
    rw [trust_observe, TrustRegistry.record_observe_self]
  refine ⟨?_, ?_⟩
  · rw [hrecord]
    exact hviolated
  · rw [TrustRegistry.get_eq_record, hrecord]
    simp only [TrustRecord.observe, hdrop, TrustScore.adjusted]

/-- One call keeps the brand, unless it registers the agent's id. -/
theorem Branded.exec {agent : AgentId} {s : RegistrationServices} {call : TrustCall}
    (h : Branded agent s) (hcall : ¬ GoesThrough agent (Machine.stepAt execTrust s call)) :
    Branded agent (s.execTrust call).2 := by
  have hkept : ∀ s' : RegistrationServices, s'.trust.record agent = s.trust.record agent →
      Branded agent s' := by
    intro s' hrecord
    refine ⟨?_, ?_⟩
    · rw [hrecord]
      exact h.violated
    · rw [TrustRegistry.get_eq_record, hrecord, ← TrustRegistry.get_eq_record]
      exact h.level
  cases call with
  | register healthCheck cap force =>
    refine hkept _ ?_
    rw [services_register]
    rcases register_trust s healthCheck cap force with ⟨result, hok, htrust⟩ | ⟨e, -, htrust⟩
    · have hother : agent ≠ ⟨cap.id.raw⟩ := by
        intro hagent
        refine hcall ⟨healthCheck, cap, force, result, rfl, ?_, hagent.symm⟩
        rw [reply_register, hok]
      rw [htrust, TrustRegistry.record_register_ne hother]
    · rw [htrust]
  | observe now other event =>
    by_cases hother : agent = other
    · subst hother
      exact branded_observe now (Or.inl h.violated)
    · refine hkept _ ?_
      rw [trust_observe, TrustRegistry.record_observe_ne hother]

/-- A run keeps the brand, unless a step of it registers the agent's id. -/
theorem Branded.run {agent : AgentId} {s : RegistrationServices} {calls : List TrustCall}
    (h : Branded agent s)
    (hcalls : ∀ st ∈ Machine.trace execTrust s calls, ¬ GoesThrough agent st) :
    Branded agent (Machine.run execTrust s calls) := by
  induction calls using List.reverseRecOn with
  | nil => exact h
  | append_singleton calls call ih =>
    rw [Machine.trace_concat] at hcalls
    rw [Machine.run_concat]
    exact (ih fun st hst => hcalls st (List.mem_append_left _ hst)).exec
      (hcalls _ (List.mem_append_right _ List.mem_cons_self))

/-! ## Violations -/

/-- **A violation holds until the next registration.** In every interleaving of
registrations and observations, from any services: once a violation was observed of an
agent, its autonomy is the first level after every later call, up to the first
registration of its id that goes through. That registration starts a fresh record. -/
theorem violation_until_registered (s : RegistrationServices) (agent : AgentId)
    (before after : List TrustCall) (now : ℤ) :
    ((∀ st ∈ Machine.trace execTrust
          (Machine.run execTrust s (before ++ [.observe now agent .policyViolation])) after,
        ¬ GoesThrough agent st) →
      ((Machine.run execTrust s
        (before ++ .observe now agent .policyViolation :: after)).trust.get agent).autonomy =
          .level1) ∧
    ∀ call, GoesThrough agent (Machine.stepAt execTrust (Machine.run execTrust s before) call) →
      ((Machine.run execTrust s (before ++ [call])).trust.record agent) = .fresh := by
  refine ⟨fun hafter => ?_, fun call hcall => ?_⟩
  · have hbranded : Branded agent
        (Machine.run execTrust s (before ++ [.observe now agent .policyViolation])) := by
      rw [Machine.run_concat]
      exact branded_observe now (Or.inr rfl)
    have hsplit : before ++ .observe now agent .policyViolation :: after =
        (before ++ [.observe now agent .policyViolation]) ++ after := by simp
    rw [hsplit, Machine.run_append]
    exact (hbranded.run hafter).level
  · obtain ⟨healthCheck, cap, force, result, hregister, hreply, rfl⟩ := hcall
    obtain rfl : call = .register healthCheck cap force := hregister
    rw [reply_register] at hreply
    rw [Machine.run_concat, services_register]
    rcases register_trust (Machine.run execTrust s before) healthCheck cap force with
      ⟨result', -, htrust⟩ | ⟨e, herror, -⟩
    · rw [htrust, TrustRegistry.record_register_self]
    · rw [herror] at hreply
      cases hreply

/-- A violation, a forced registration, and then nothing but successes. -/
def laundering : List TrustCall :=
  [.register (fun _ => .ok ()) (.plain ⟨"cap-expense"⟩ "expense") false,
    .observe 0 ⟨"cap-expense"⟩ .policyViolation,
    .register (fun _ => .ok ()) (.plain ⟨"cap-expense"⟩ "expense") true] ++
    List.replicate 20 (.observe 0 ⟨"cap-expense"⟩ .success)

/-- They lead to the second level. -/
theorem laundering_promotes :
    ¬ ∀ (calls before after : List TrustCall) (agent : AgentId) (now : ℤ),
      calls = before ++ .observe now agent .policyViolation :: after →
        ((Machine.run execTrust inMemory calls).trust.get agent).autonomy = .level1 := by
  intro h
  have hlevel := h laundering (laundering.take 1) (laundering.drop 2) ⟨"cap-expense"⟩ 0 rfl
  revert hlevel
  decide +kernel

end RegistrationServices

end Aaf
