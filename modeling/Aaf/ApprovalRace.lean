import Aaf.Approval
import Aaf.ExecutorRun

/-!
# Approval gates racing for one workflow

`ApprovalNode::run` takes the workflow's lock twice: it looks its request up, and
when there is none it opens one. Between the two, other gates and reviewers may step
in. Here any number of gate calls, numbered, run against one workflow together with
reviewers, one lock acquisition at a time, in any order.

A verdict is lost in one way only: a gate that found nothing opens its request after
another gate's request for the same intent was resolved. `verdictsKept_iff` says that
the verdicts of a run are kept exactly when this does not happen.
-/

namespace Aaf

namespace GateRace

/-! ## The system -/

/-- One call of `ApprovalNode::run`. -/
structure Call where
  gate : ApprovalNode
  intent : IntentEnvelope

/-- The request a call is about. -/
def Call.requestId (c : Call) : String := requestIdOf c.intent.intentId

/-- How far a call has come. -/
inductive Phase : Type where
  | idle : Phase
  /-- it found no request, and has not opened one yet -/
  | opening : Phase
  | done (result : Except RuntimeError NodeOutput) : Phase

/-- The workflow and the calls. -/
structure Shared where
  wf : ApprovalWorkflow
  phase : ℕ → Phase

/-- One lock acquisition. -/
inductive Action : Type where
  | lookUp (call : ℕ) : Action
  | openRequest (call : ℕ) : Action
  | resolve (requestId : String) (approved : Bool) : Action
  deriving DecidableEq, Repr

/-- A call that is not at the step asked of it. -/
inductive Blocked : Type where
  | blocked : Blocked

/-- Where its look-up brings a call. -/
def Call.afterLookUp (c : Call) (wf : ApprovalWorkflow) : Phase :=
  if c.gate.autoApprove then .done (.ok (approvedOutput "auto"))
  else
    match wf.get c.requestId with
    | some req => .done (approvalVerdict c.intent.intentId req.state)
    | none => .opening

/-- The answer of a call that opened its request. -/
def Call.opened (c : Call) : Except RuntimeError NodeOutput :=
  .error (.node ("approval opened for intent " ++ c.intent.intentId.raw ++ ", awaiting reviewer"))

variable (calls : ℕ → Call)

/-- One step of the system. -/
def step (s : Shared) : Action → Except Blocked Shared
  | .lookUp k =>
    match s.phase k with
    | .idle => .ok { s with phase := Function.update s.phase k ((calls k).afterLookUp s.wf) }
    | _ => .error .blocked
  | .openRequest k =>
    match s.phase k with
    | .opening =>
      .ok
        { wf := (s.wf.openRequest (calls k).intent.intentId (calls k).gate.reason []).2
          phase := Function.update s.phase k (.done (calls k).opened) }
    | _ => .error .blocked
  | .resolve requestId approved => .ok { s with wf := (s.wf.resolve requestId approved).2 }

/-- Before any step: a workflow `wf₀`, no call started. -/
def start (wf₀ : ApprovalWorkflow) : Shared := ⟨wf₀, fun _ => .idle⟩

/-- The system takes the steps `actions` and comes to `s`. -/
def Runs (wf₀ : ApprovalWorkflow) (actions : List Action) (s : Shared) : Prop :=
  actions.foldlM (step calls) (start wf₀) = .ok s

/-- The request a reviewer's step resolves. -/
def Action.resolves : Action → Option String
  | .resolve requestId _ => some requestId
  | _ => none

variable {calls} {wf₀ : ApprovalWorkflow}

/-- One more step at the end of a run. -/
theorem runs_concat_iff {actions : List Action} {a : Action} {t : Shared} :
    Runs calls wf₀ (actions ++ [a]) t ↔
      ∃ s, Runs calls wf₀ actions s ∧ step calls s a = .ok t :=
  Loop.foldlM_concat_ok

/-- What a step asks of the calls and does to the workflow. -/
inductive Stepped (calls : ℕ → Call) (s : Shared) : Action → Shared → Prop
  | lookedUp {k : ℕ} (hidle : s.phase k = .idle) :
      Stepped calls s (.lookUp k)
        ⟨s.wf, Function.update s.phase k ((calls k).afterLookUp s.wf)⟩
  | opened {k : ℕ} (hopening : s.phase k = .opening) :
      Stepped calls s (.openRequest k)
        ⟨(s.wf.openRequest (calls k).intent.intentId (calls k).gate.reason []).2,
          Function.update s.phase k (.done (calls k).opened)⟩
  | resolved (requestId : String) (approved : Bool) :
      Stepped calls s (.resolve requestId approved) ⟨(s.wf.resolve requestId approved).2, s.phase⟩

theorem step_cases {s t : Shared} {a : Action} (h : step calls s a = .ok t) :
    Stepped calls s a t := by
  cases a with
  | lookUp k =>
    rw [step] at h
    rcases hphase : s.phase k with _ | _ | result
    · rw [hphase] at h
      cases h
      exact .lookedUp hphase
    · rw [hphase] at h
      cases h
    · rw [hphase] at h
      cases h
  | openRequest k =>
    rw [step] at h
    rcases hphase : s.phase k with _ | _ | result
    · rw [hphase] at h
      cases h
    · rw [hphase] at h
      cases h
      exact .opened hphase
    · rw [hphase] at h
      cases h
  | resolve requestId approved =>
    rw [step] at h
    cases h
    exact .resolved requestId approved

/-- A call answers by its look-up, or finds no request. -/
theorem Call.afterLookUp_cases (c : Call) (wf : ApprovalWorkflow) :
    (c.afterLookUp wf = .done (c.gate.run c.intent wf).1 ∧ (c.gate.run c.intent wf).2 = wf) ∨
    (c.afterLookUp wf = .opening ∧ wf.get c.requestId = none ∧
      c.gate.run c.intent wf =
        (c.opened, (wf.openRequest c.intent.intentId c.gate.reason []).2)) := by
  rw [afterLookUp, ApprovalNode.run, requestId]
  by_cases hauto : c.gate.autoApprove = true
  · rw [if_pos hauto, if_pos hauto]
    exact Or.inl ⟨rfl, rfl⟩
  · rw [if_neg hauto, if_neg hauto]
    rcases hget : wf.get (requestIdOf c.intent.intentId) with _ | req
    · exact Or.inr ⟨rfl, rfl, rfl⟩
    · exact Or.inl ⟨rfl, rfl⟩

/-- A call that runs alone, from its look-up to its end, is `ApprovalNode::run`. -/
theorem alone_eq_run {s : Shared} {k : ℕ} (hidle : s.phase k = .idle) :
    ∃ actions t, (actions = [.lookUp k] ∨ actions = [.lookUp k, .openRequest k]) ∧
      actions.foldlM (step calls) s = .ok t ∧
      t.phase k = .done ((calls k).gate.run (calls k).intent s.wf).1 ∧
      t.wf = ((calls k).gate.run (calls k).intent s.wf).2 := by
  have hlook : step calls s (.lookUp k) =
      .ok ⟨s.wf, Function.update s.phase k ((calls k).afterLookUp s.wf)⟩ := by
    rw [step, hidle]
  rcases (calls k).afterLookUp_cases s.wf with ⟨hdone, hwf⟩ | ⟨hopening, -, hrun⟩
  · refine ⟨[.lookUp k], ⟨s.wf, Function.update s.phase k ((calls k).afterLookUp s.wf)⟩,
      Or.inl rfl, ?_, ?_, hwf.symm⟩
    · rw [List.foldlM_cons, hlook]
      rfl
    · rw [hdone]
      exact Function.update_self ..
  · rw [hopening] at hlook
    have hopen : step calls ⟨s.wf, Function.update s.phase k .opening⟩ (.openRequest k) =
        .ok ⟨(s.wf.openRequest (calls k).intent.intentId (calls k).gate.reason []).2,
          Function.update (Function.update s.phase k .opening) k (.done (calls k).opened)⟩ := by
      rw [step]
      dsimp only
      rw [Function.update_self]
    refine ⟨[.lookUp k, .openRequest k],
      ⟨(s.wf.openRequest (calls k).intent.intentId (calls k).gate.reason []).2,
        Function.update (Function.update s.phase k .opening) k (.done (calls k).opened)⟩,
      Or.inr rfl, ?_, ?_, ?_⟩
    · rw [List.foldlM_cons, hlook]
      change List.foldlM (step calls) ⟨s.wf, Function.update s.phase k .opening⟩ _ = _
      rw [List.foldlM_cons, hopen]
      rfl
    · rw [hrun]
      exact Function.update_self ..
    · rw [hrun]

/-! ## The workflow's table -/

theorem get_openRequest_self (wf : ApprovalWorkflow) (c : Call) :
    (wf.openRequest c.intent.intentId c.gate.reason []).2.get c.requestId =
      some ⟨c.requestId, c.intent.intentId, c.gate.reason, [], .pending⟩ :=
  AList.lookup_insert _

theorem get_openRequest_ne (wf : ApprovalWorkflow) (c : Call) {id : String}
    (h : id ≠ c.requestId) :
    (wf.openRequest c.intent.intentId c.gate.reason []).2.get id = wf.get id :=
  AList.lookup_insert_ne h

/-- Resolving stores the state that is returned, and it is a verdict. -/
theorem get_resolve_self {wf : ApprovalWorkflow} {id : String} {approved : Bool}
    {st : ApprovalState} (h : (wf.resolve id approved).1 = some st) :
    st ≠ .pending ∧ ∃ req, (wf.resolve id approved).2.get id = some req ∧ req.state = st := by
  rw [ApprovalWorkflow.resolve] at h ⊢
  rcases hreq : wf.lookup id with _ | req
  · rw [hreq] at h
    cases h
  · rw [hreq] at h
    cases h
    refine ⟨?_, _, AList.lookup_insert _, rfl⟩
    rcases approved with _ | _
    · intro hst
      cases hst
    · intro hst
      cases hst

/-- A request that is there can be resolved. -/
theorem resolve_eq_some {wf : ApprovalWorkflow} {id : String} (approved : Bool)
    {req : ApprovalRequest} (h : wf.get id = some req) :
    ∃ st, (wf.resolve id approved).1 = some st := by
  rw [ApprovalWorkflow.get] at h
  rw [ApprovalWorkflow.resolve, h]
  exact ⟨_, rfl⟩

/-! ## Verdicts -/

/-- Once a reviewer's step has returned a state, every later look at the request
finds that state, and every gate that starts later answers accordingly. -/
def VerdictsKept (calls : ℕ → Call) (wf₀ : ApprovalWorkflow) (actions : List Action) : Prop :=
  ∀ before id approved mid rest s t st,
    actions = before ++ .resolve id approved :: mid ++ rest →
    Runs calls wf₀ before s → (s.wf.resolve id approved).1 = some st →
    Runs calls wf₀ (before ++ .resolve id approved :: mid) t →
      (∃ req, t.wf.get id = some req ∧ req.state = st) ∧
      ∀ k, t.phase k = .idle → (calls k).gate.autoApprove = false → (calls k).requestId = id →
        ∃ t', step calls t (.lookUp k) = .ok t' ∧
          t'.phase k = .done (approvalVerdict (calls k).intent.intentId st)

/-- No gate opens a request while a resolved one is stored. -/
def OpensUnresolved (calls : ℕ → Call) (wf₀ : ApprovalWorkflow) (actions : List Action) : Prop :=
  ∀ before k rest s, actions = before ++ .openRequest k :: rest → Runs calls wf₀ before s →
    ∀ req, s.wf.get (calls k).requestId = some req → req.state = .pending

/-- A gate that starts on a stored request answers by its state. -/
theorem lookUp_verdict {t : Shared} {k : ℕ} {req : ApprovalRequest} (hidle : t.phase k = .idle)
    (hworkflow : (calls k).gate.autoApprove = false)
    (hreq : t.wf.get (calls k).requestId = some req) :
    ∃ t', step calls t (.lookUp k) = .ok t' ∧
      t'.phase k = .done (approvalVerdict (calls k).intent.intentId req.state) := by
  refine ⟨⟨t.wf, Function.update t.phase k ((calls k).afterLookUp t.wf)⟩, ?_, ?_⟩
  · rw [step, hidle]
  · rw [Call.afterLookUp, hworkflow, if_neg Bool.false_ne_true, hreq]
    exact Function.update_self ..

/-- A step that neither resolves the request nor opens it leaves it alone. -/
theorem Stepped.get_eq {s t : Shared} {a : Action} (h : Stepped calls s a t) {id : String}
    (hresolve : ∀ approved, a ≠ .resolve id approved)
    (hopen : ∀ k, a = .openRequest k → (calls k).requestId ≠ id) : t.wf.get id = s.wf.get id := by
  cases h with
  | lookedUp hidle => rfl
  | @opened k hopening => exact get_openRequest_ne _ _ (Ne.symm (hopen k rfl))
  | resolved requestId approved =>
    refine ApprovalWorkflow.get_resolve_ne approved ?_
    rintro rfl
    exact hresolve approved rfl

/-- The state a reviewer's step returned stays stored. -/
theorem OpensUnresolved.kept {actions before : List Action} {id : String} {approved : Bool}
    {s : Shared} {st : ApprovalState} (h : OpensUnresolved calls wf₀ actions)
    (honce : (actions.filterMap Action.resolves).Nodup) (hs : Runs calls wf₀ before s)
    (hst : (s.wf.resolve id approved).1 = some st) :
    ∀ {mid rest : List Action} {t : Shared},
      actions = before ++ .resolve id approved :: mid ++ rest →
      Runs calls wf₀ (before ++ .resolve id approved :: mid) t →
        ∃ req, t.wf.get id = some req ∧ req.state = st := by
  obtain ⟨hne, hstored⟩ := get_resolve_self hst
  intro mid
  induction mid using List.reverseRecOn with
  | nil =>
    intro rest t _ ht
    obtain ⟨s', hs', hstep⟩ := runs_concat_iff.mp ht
    obtain rfl : s = s' := Except.ok.inj (hs.symm.trans hs')
    cases step_cases hstep
    exact hstored
  | append_singleton mid a ih =>
    intro rest t hsplit ht
    rw [← List.cons_append, ← List.append_assoc] at ht
    obtain ⟨t', ht', hstep⟩ := runs_concat_iff.mp ht
    have hsplit' : actions = before ++ .resolve id approved :: mid ++ (a :: rest) := by
      rw [hsplit]
      simp
    obtain ⟨req, hreq, hstate⟩ := ih hsplit' ht'
    refine ⟨req, ?_, hstate⟩
    rw [(step_cases hstep).get_eq ?_ ?_]
    · exact hreq
    · -- the request is resolved only once
      rintro approved' rfl
      have hresolves : actions.filterMap Action.resolves = before.filterMap Action.resolves ++
          id :: (mid.filterMap Action.resolves ++ id :: rest.filterMap Action.resolves) := by
        rw [hsplit']
        simp [Action.resolves]
      rw [hresolves, List.nodup_append, List.nodup_cons] at honce
      exact honce.2.1.1 (List.mem_append_right _ (List.mem_cons_self ..))
    · -- a gate that opens it now would find it resolved
      rintro k rfl hk
      have hpending := h _ k rest t' hsplit' ht' req (by rw [hk]; exact hreq)
      exact hne (hstate ▸ hpending)

/-! ## When a verdict is lost -/

/-- What the past says about a request that is stored now. -/
structure Past (calls : ℕ → Call) (wf₀ : ApprovalWorkflow) (actions : List Action) (s : Shared) :
    Prop where
  run : Runs calls wf₀ actions s
  /-- requests are never removed -/
  persist : ∀ id, s.wf.get id = none → wf₀.get id = none
  /-- only for a request that was not there from the start can a gate be opening -/
  absent : ∀ k, s.phase k = .opening → wf₀.get (calls k).requestId = none
  /-- a request opened in the run is pending until it is resolved in the run -/
  resolved : ∀ id req, wf₀.get id = none → s.wf.get id = some req → req.state ≠ .pending →
    ∃ before approved mid t st, actions = before ++ .resolve id approved :: mid ∧
      Runs calls wf₀ before t ∧ (t.wf.resolve id approved).1 = some st

theorem past_start (calls : ℕ → Call) (wf₀ : ApprovalWorkflow) :
    Past calls wf₀ [] (start wf₀) := by
  refine ⟨rfl, fun id h => h, fun k h => ?_, fun id req hnone hsome => ?_⟩
  · cases h
  · cases hnone.symm.trans hsome

/-- A verdict of the past is one of the longer past. -/
theorem exists_resolve_concat {actions : List Action} (a : Action) {id : String}
    (h : ∃ before approved mid t st, actions = before ++ .resolve id approved :: mid ∧
      Runs calls wf₀ before t ∧ (t.wf.resolve id approved).1 = some st) :
    ∃ before approved mid t st, actions ++ [a] = before ++ .resolve id approved :: mid ∧
      Runs calls wf₀ before t ∧ (t.wf.resolve id approved).1 = some st := by
  obtain ⟨before, approved, mid, t, st, rfl, ht, hst⟩ := h
  exact ⟨before, approved, mid ++ [a], t, st, by simp, ht, hst⟩

/-- A gate that moves on is opening only for a request that was not there. -/
theorem Past.absent_update {actions : List Action} {s : Shared} (h : Past calls wf₀ actions s)
    {k : ℕ} {next : Phase} (hnext : next = .opening → wf₀.get (calls k).requestId = none) (j : ℕ)
    (hj : Function.update s.phase k next j = .opening) : wf₀.get (calls j).requestId = none := by
  by_cases hjk : j = k
  · subst hjk
    rw [Function.update_self] at hj
    exact hnext hj
  · rw [Function.update_of_ne hjk] at hj
    exact h.absent j hj

/-- A verdict removes no request. -/
theorem get_eq_none_of_resolve {wf : ApprovalWorkflow} {requestId id : String} {approved : Bool}
    (h : (wf.resolve requestId approved).2.get id = none) : wf.get id = none := by
  by_cases hid : id = requestId
  · subst hid
    by_contra hsome
    obtain ⟨req, hreq⟩ := Option.ne_none_iff_exists'.mp hsome
    obtain ⟨st, hst⟩ := resolve_eq_some approved hreq
    obtain ⟨-, req', hreq', -⟩ := get_resolve_self hst
    cases h.symm.trans hreq'
  · rwa [ApprovalWorkflow.get_resolve_ne approved hid] at h

/-- One step lengthens the past. -/
theorem Past.step {actions : List Action} {s t : Shared} {a : Action}
    (h : Past calls wf₀ actions s) (hstep : GateRace.step calls s a = .ok t) :
    Past calls wf₀ (actions ++ [a]) t := by
  have hrun := runs_concat_iff.mpr ⟨s, h.run, hstep⟩
  cases step_cases hstep with
  | @lookedUp k hidle =>
    refine ⟨hrun, h.persist, h.absent_update fun hopening => ?_, fun id req hnone hsome hne => ?_⟩
    · -- the look-up found nothing, so nothing was there from the start
      rcases (calls k).afterLookUp_cases s.wf with ⟨hdone, -⟩ | ⟨-, hnone, -⟩
      · cases hdone.symm.trans hopening
      · exact h.persist _ hnone
    · exact exists_resolve_concat _ (h.resolved id req hnone hsome hne)
  | @opened k hopening =>
    refine ⟨hrun, fun id hid => ?_, h.absent_update fun hphase => (by cases hphase),
      fun id req hnone hsome hne => ?_⟩
    · by_cases hk : id = (calls k).requestId
      · rw [hk]
        exact h.absent k hopening
      · rw [get_openRequest_ne _ _ hk] at hid
        exact h.persist id hid
    · by_cases hk : id = (calls k).requestId
      · rw [hk, get_openRequest_self] at hsome
        cases hsome
        exact absurd rfl hne
      · rw [get_openRequest_ne _ _ hk] at hsome
        exact exists_resolve_concat _ (h.resolved id req hnone hsome hne)
  | resolved requestId approved =>
    refine ⟨hrun, fun id hid => h.persist id (get_eq_none_of_resolve hid), h.absent,
      fun id req hnone hsome hne => ?_⟩
    by_cases hr : id = requestId
    · subst hr
      rcases hold : s.wf.get id with _ | old
      · -- an unknown request is not resolved
        have hsame : (s.wf.resolve id approved).2 = s.wf := by
          rw [ApprovalWorkflow.get] at hold
          rw [ApprovalWorkflow.resolve, hold]
        rw [hsame, hold] at hsome
        cases hsome
      · obtain ⟨st, hst⟩ := resolve_eq_some approved hold
        exact ⟨actions, approved, [], s, st, rfl, h.run, hst⟩
    · rw [ApprovalWorkflow.get_resolve_ne approved hr] at hsome
      exact exists_resolve_concat _ (h.resolved id req hnone hsome hne)

theorem Runs.past {actions : List Action} {s : Shared} (h : Runs calls wf₀ actions s) :
    Past calls wf₀ actions s :=
  Loop.foldlM_ok (I := Past calls wf₀) (past_start calls wf₀)
    (fun _ _ _ _ hI hstep => hI.step hstep) h

/-- **When verdicts are kept.** In every interleaving of gates and reviewers who
resolve a request at most once, no verdict is lost exactly when no gate opens a
request while a resolved one is stored. -/
theorem verdictsKept_iff (calls : ℕ → Call) (wf₀ : ApprovalWorkflow) (actions : List Action)
    (honce : (actions.filterMap Action.resolves).Nodup) (s : Shared)
    (hrun : Runs calls wf₀ actions s) :
    VerdictsKept calls wf₀ actions ↔ OpensUnresolved calls wf₀ actions := by
  refine ⟨fun hkept before k rest s' hsplit hs' req hreq => ?_, fun hopens => ?_⟩
  · by_contra hne
    -- the gate does open its request there, and the stored one was resolved in the run
    have hlegal : ∃ t, Runs calls wf₀ (before ++ [.openRequest k]) t := by
      rw [Runs, hsplit, List.append_cons, List.foldlM_append, Loop.bind_ok_iff] at hrun
      obtain ⟨t, ht, -⟩ := hrun
      exact ⟨t, ht⟩
    obtain ⟨t, ht⟩ := hlegal
    obtain ⟨s'', hs'', hstep⟩ := runs_concat_iff.mp ht
    obtain rfl : s' = s'' := Except.ok.inj (hs'.symm.trans hs'')
    cases step_cases hstep with
    | opened hopening =>
      have hpast := hs'.past
      obtain ⟨b, approved, mid, r, st, hb, hr, hst⟩ :=
        hpast.resolved _ req (hpast.absent k hopening) hreq hne
      obtain ⟨hst', -⟩ := get_resolve_self hst
      have hsplit' : actions =
          b ++ .resolve (calls k).requestId approved :: (mid ++ [.openRequest k]) ++ rest := by
        rw [hsplit, hb]
        simp
      rw [hb, List.append_assoc, List.cons_append] at ht
      obtain ⟨⟨req', hreq', hstate⟩, -⟩ := hkept _ _ _ _ _ _ _ _ hsplit' hr hst ht
      rw [get_openRequest_self] at hreq'
      cases hreq'
      exact hst' hstate.symm
  · intro before id approved mid rest s' t st hsplit hs' hst ht
    obtain ⟨req, hreq, hstate⟩ := hopens.kept honce hs' hst hsplit ht
    refine ⟨⟨req, hreq, hstate⟩, fun k hidle hworkflow hk => ?_⟩
    subst hk hstate
    exact lookUp_verdict hidle hworkflow hreq

/-- Every call is one of the same gate for the same intent. -/
def sampleCalls : ℕ → Call := fun _ => ⟨⟨Sample.nodeA, false, "needs review"⟩, Sample.intent⟩

/-- Two calls find nothing; the second opens the request, a reviewer approves it, and
then the first one opens it again. -/
def racingActions : List Action :=
  [.lookUp 0, .lookUp 1, .openRequest 1, .resolve "appr-int-1" true, .openRequest 0]

theorem racingActions_lose_verdict :
    (racingActions.filterMap Action.resolves).Nodup ∧ (∃ s, Runs sampleCalls ∅ racingActions s) ∧
      ¬ VerdictsKept sampleCalls ∅ racingActions := by
  refine ⟨by decide, ⟨_, rfl⟩, fun h => ?_⟩
  obtain ⟨⟨req, hreq, hstate⟩, -⟩ := h [.lookUp 0, .lookUp 1, .openRequest 1] "appr-int-1" true
    [.openRequest 0] [] _ _ .approved rfl rfl rfl rfl
  cases hreq
  cases hstate

/-- One call at a time, with a review in between. -/
def orderlyActions : List Action :=
  [.lookUp 0, .openRequest 0, .resolve "appr-int-1" true, .lookUp 1]

theorem verdictsKept_iff_orderly :
    VerdictsKept sampleCalls ∅ orderlyActions ↔ OpensUnresolved sampleCalls ∅ orderlyActions :=
  verdictsKept_iff sampleCalls ∅ orderlyActions (by decide) _ rfl

end GateRace

end Aaf
