import Aaf.Guards
import Aaf.Machine

/-!
# The in-process wrapper

`aaf-wrapper` guards the functions of a module: a call goes through the input guard, under an
envelope made up for it, before it reaches the function registered under its name. The
functions may act on a world `ω`.

With the default rules the guard stops exactly the payloads with an injection phrase, so that a
whole history of calls is answered as `InProcessWrapper.invocations_answered` says: by
the latest function of the name, or not at all.
-/

namespace Aaf

open Machine (run)

/-! ## Definitions -/

/-- `CapabilityFn`, with its effect. -/
abbrev CapabilityFn (ω : Type) : Type := Json → ω → Except String Json × ω

/-- Wrapper errors. -/
inductive WrapperError : Type where
  | unknown (name : String) : WrapperError
  | policyDenied (decision : PolicyDecision) : WrapperError
  | capabilityFailed (message : String) : WrapperError

/-- What an envelope is stamped with: fresh ids, and the clock. -/
structure Stamp where
  intentId : IntentId
  traceId : TraceId
  now : ℕ

/-- `InProcessWrapper`. -/
structure InProcessWrapper (ω : Type) where
  capabilities : HashMap String (CapabilityFn ω)
  policy : PolicyEngine

namespace InProcessWrapper

variable {ω : Type}

/-- `InProcessWrapper::new`. -/
def new (policy : PolicyEngine) : InProcessWrapper ω := ⟨∅, policy⟩

/-- `InProcessWrapper::register`. -/
def register (wrapper : InProcessWrapper ω) (name : String) (func : CapabilityFn ω) :
    InProcessWrapper ω :=
  { wrapper with capabilities := wrapper.capabilities.insert name func }

/-- The envelope made up for a call. -/
def envelope (stamp : Stamp) (name : String) : IntentEnvelope where
  intentId := stamp.intentId
  intentType := .transactionalIntent
  requester := ⟨"in-process", "module", ["auto-approve"], none⟩
  goal := name
  domain := "in-process"
  constraints := ∅
  budget := ⟨0, 0, 1000⟩
  deadline := none
  riskTier := .read
  approvalPolicy := "none"
  outputContract := none
  traceId := stamp.traceId
  depth := 0
  createdAt := stamp.now
  entitiesInContext := []

/-- `InProcessWrapper::invoke`. -/
def invoke (wrapper : InProcessWrapper ω) (toText : Json → String) (stamp : Stamp) (name : String)
    (payload : Json) (w : ω) : Except WrapperError Json × ω :=
  match wrapper.capabilities.lookup name with
  | none => (.error (.unknown name), w)
  | some func =>
    let decision := InputGuard.check wrapper.policy (envelope stamp name) (toText payload)
    if !decision.isAllowed then (.error (.policyDenied decision), w)
    else
      let (result, w) := func payload w
      (result.mapError .capabilityFailed, w)

end InProcessWrapper

/-- The calls a wrapper takes. -/
inductive WrapperCall (ω : Type) : Type where
  | register (name : String) (func : CapabilityFn ω) : WrapperCall ω
  | invoke (stamp : Stamp) (name : String) (payload : Json) : WrapperCall ω

/-- One call on a wrapper in a world; a registration is answered with nothing. -/
def InProcessWrapper.exec {ω : Type} (toText : Json → String) (s : InProcessWrapper ω × ω) :
    WrapperCall ω → Option (Except WrapperError Json) × (InProcessWrapper ω × ω)
  | .register name func => (none, (s.1.register name func, s.2))
  | .invoke stamp name payload =>
    let (reply, w) := s.1.invoke toText stamp name payload s.2
    (some reply, (s.1, w))

namespace InProcessWrapper

variable {ω : Type}

/-! ## The guard -/

/-- What the default rules report on the envelope of a call: the injection rule alone speaks. -/
theorem violations_default (classes : CharClasses) (stamp : Stamp) (name text : String) :
    (PolicyEngine.withDefaultRules (patternMatch classes)).violations .preStep
        (guardContext (envelope stamp name) (some text) none) =
      ((injectionGuard (patternMatch classes)).evaluate
        (guardContext (envelope stamp name) (some text) none)).toList := by
  have hscope : scopeCheck.evaluate (guardContext (envelope stamp name) (some text) none) = none :=
    rfl
  have hgate : sideEffectGate.evaluate (guardContext (envelope stamp name) (some text) none) =
    none := rfl
  have hspend : (budgetControl defaultWarnPct).evaluate
      (guardContext (envelope stamp name) (some text) none) = none := by
    simp [budgetControl, guardContext, envelope]
  have hwrites : (compositionSafety 3).evaluate
    (guardContext (envelope stamp name) (some text) none) = none := rfl
  have hboundary : boundaryEnforcement.evaluate
    (guardContext (envelope stamp name) (some text) none) = none := rfl
  have hrules : (PolicyEngine.withDefaultRules (patternMatch classes)).rules.filter
      (PolicyEngine.applies .preStep) =
    [scopeCheck, sideEffectGate, budgetControl defaultWarnPct,
      injectionGuard (patternMatch classes), compositionSafety 3, boundaryEnforcement] := rfl
  rw [PolicyEngine.violations, hrules]
  simp only [List.filterMap_cons, hscope, hgate, hspend, hwrites, hboundary, List.filterMap_nil]
  rcases (injectionGuard (patternMatch classes)).evaluate
    (guardContext (envelope stamp name) (some text) none) with _ | v
  · rfl
  · rfl

/-- The default rules stop a payload for an injection phrase, and for nothing else. -/
theorem check_default (classes : CharClasses) (stamp : Stamp) (name text : String) :
    (Injects text ∧ ∃ v, v.kind = .injectionGuard ∧
        InputGuard.check (.withDefaultRules (patternMatch classes)) (envelope stamp name) text =
          .deny [v]) ∨
      (¬ Injects text ∧
        InputGuard.check (.withDefaultRules (patternMatch classes)) (envelope stamp name) text =
          .allow) := by
  rw [InputGuard.check, PolicyEngine.evaluate, violations_default]
  rcases hfind : injectionPatterns.find? (fun p => patternMatch classes p text) with _ | p
  · refine Or.inr ⟨fun h => ?_, ?_⟩
    · obtain ⟨p, hp, hmatch⟩ := (injectionHit_iff classes).mpr h
      exact List.find?_eq_none.mp hfind p hp hmatch
    · simp [injectionGuard, guardContext, hfind, PolicyEngine.decisionOf]
  · have hmatch := List.find?_some hfind
    refine Or.inl ⟨(injectionHit_iff classes).mp ⟨p, List.mem_of_find?_eq_some hfind, hmatch⟩,
      ⟨"injection-guard", .injectionGuard, .error,
        "prompt-injection pattern matched: " ++ p⟩, rfl, ?_⟩
    simp [injectionGuard, guardContext, hfind, PolicyEngine.decisionOf_singleton]

/-! ## A history of calls -/

/-- The function registered last under a name. -/
def latest (name : String) (calls : List (WrapperCall ω)) : Option (CapabilityFn ω) :=
  calls.reverse.findSome? fun
    | .register n func => if n = name then some func else none
    | .invoke _ _ _ => none

theorem latest_concat_register (name n : String) (func : CapabilityFn ω)
    (calls : List (WrapperCall ω)) :
    latest n (calls ++ [.register name func]) = if name = n then some func else latest n calls := by
  rw [latest, List.reverse_concat, List.findSome?_cons]
  by_cases hn : name = n
  · simp [hn]
  · simp [hn, latest]

theorem latest_concat_invoke (n : String) (stamp : Stamp) (name : String) (payload : Json)
    (calls : List (WrapperCall ω)) :
    latest n (calls ++ [.invoke stamp name payload]) = latest n calls := by
  rw [latest, List.reverse_concat, List.findSome?_cons]
  rfl

/-- The table holds the latest functions, and the rules stay. -/
theorem run_eq (toText : Json → String) (policy : PolicyEngine) (w : ω)
    (calls : List (WrapperCall ω)) :
    (∀ name, (run (exec toText) (new policy, w) calls).1.capabilities.lookup name =
        latest name calls) ∧
      (run (exec toText) (new policy, w) calls).1.policy = policy := by
  induction calls using List.reverseRecOn with
  | nil => exact ⟨fun _ => rfl, rfl⟩
  | append_singleton calls call ih =>
    obtain ⟨htable, hpolicy⟩ := ih
    rw [Machine.run_concat]
    generalize run (exec toText) (new policy, w) calls = s at htable hpolicy
    cases call with
    | invoke stamp name payload =>
      refine ⟨fun n => ?_, hpolicy⟩
      rw [latest_concat_invoke]
      exact htable n
    | register name func =>
      refine ⟨fun n => ?_, hpolicy⟩
      rw [latest_concat_register, ← htable n]
      by_cases hn : name = n
      · subst hn
        simp [exec, register]
      · rw [if_neg hn]
        exact AList.lookup_insert_ne (Ne.symm hn)

/-- How an invocation is answered, and what it does to the world. -/
inductive Answered (toText : Json → String) (before : List (WrapperCall ω)) (name : String)
    (payload : Json) (w : ω) : Except WrapperError Json → ω → Prop
  | unknown (h : latest name before = none) :
      Answered toText before name payload w (.error (.unknown name)) w
  | denied {func : CapabilityFn ω} {v : PolicyViolation} (h : latest name before = some func)
      (hinjects : Injects (toText payload)) (hkind : v.kind = .injectionGuard) :
      Answered toText before name payload w (.error (.policyDenied (.deny [v]))) w
  | called {func : CapabilityFn ω} (h : latest name before = some func)
      (hclean : ¬ Injects (toText payload)) :
      Answered toText before name payload w ((func payload w).1.mapError .capabilityFailed)
        (func payload w).2

/-- **A guarded module.** In every history of registrations and invocations on a wrapper with the
default rules, an invocation reaches the function registered last under its name exactly when
there is one and the payload has no injection phrase; every other invocation is refused and
leaves the world as it was. -/
theorem invocations_answered (classes : CharClasses) (toText : Json → String) (w : ω)
    (before : List (WrapperCall ω)) (stamp : Stamp) (name : String) (payload : Json) :
    ∃ reply w', exec toText
        (run (exec toText) (new (.withDefaultRules (patternMatch classes)), w) before)
        (.invoke stamp name payload) =
        (some reply,
          (run (exec toText) (new (.withDefaultRules (patternMatch classes)), w) before).1, w') ∧
      Answered toText before name payload
        (run (exec toText) (new (.withDefaultRules (patternMatch classes)), w) before).2
        reply w' := by
  obtain ⟨htable, hpolicy⟩ :=
    run_eq toText (.withDefaultRules (patternMatch classes)) w before
  generalize run (exec toText) (new (.withDefaultRules (patternMatch classes)), w) before = s
    at htable hpolicy
  obtain ⟨wrapper, w₁⟩ := s
  have htable : wrapper.capabilities.lookup name = latest name before := htable name
  have hpolicy : wrapper.policy = .withDefaultRules (patternMatch classes) := hpolicy
  rcases hlatest : latest name before with _ | func
  · refine ⟨.error (.unknown name), w₁, ?_, .unknown hlatest⟩
    simp [exec, invoke, htable, hlatest]
  rcases check_default classes stamp name (toText payload) with
    ⟨hinjects, v, hkind, hcheck⟩ | ⟨hclean, hcheck⟩
  · refine ⟨.error (.policyDenied (.deny [v])), w₁, ?_, .denied hlatest hinjects hkind⟩
    simp [exec, invoke, htable, hlatest, hpolicy, hcheck, PolicyDecision.isAllowed]
  · refine ⟨(func payload w₁).1.mapError .capabilityFailed, (func payload w₁).2, ?_,
      .called hlatest hclean⟩
    simp [exec, invoke, htable, hlatest, hpolicy, hcheck, PolicyDecision.isAllowed]

end InProcessWrapper

end Aaf
