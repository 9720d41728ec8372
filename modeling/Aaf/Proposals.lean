import Aaf.Contracts
import Aaf.Machine

/-!
# Action proposals

`ActionProposal` and `ProposalLifecycle` (`aaf-surface`): a proposal is built as a draft,
under Rule 20, and moves through its approval states. The lifecycle reads no clock. A
proposal expires when somebody calls `expire`, and its `expires_at` is looked at by nobody.

An operation fails and changes nothing, or moves the state as its table says
(`exec_cases`); publishing cannot fail between its two transitions. `lifecycle_run` follows
a proposal through any run.
-/

namespace Aaf

/-- Identifier of a proposal. -/
structure ProposalId where
  raw : String
  deriving DecidableEq, Repr

/-- Identifier of an artifact. -/
structure ArtifactId where
  raw : String
  deriving DecidableEq, Repr

/-- Typed reference to a compensating capability. -/
structure CompensationRef where
  capability : CapabilityId
  deriving DecidableEq, Repr

/-- How the UI should render a proposal. -/
inductive UiKind : Type where
  | diff : UiKind
  | form : UiKind
  | card : UiKind
  | banner : UiKind
  deriving DecidableEq, Repr

/-- UI rendering hints for the application. -/
structure UiHints where
  kind : UiKind
  priority : ℕ
  dismissable : Bool
  deriving DecidableEq, Repr

/-- `UiHints::default`. -/
def UiHints.default : UiHints := ⟨.card, 50, true⟩

/-- One proposed state change. -/
structure StateMutationProposal where
  entityRef : EntityRefLite
  fieldPath : String
  fromValue : Json
  toValue : Json
  previewRendererHint : Option String
  reversible : Bool
  compensationRef : CompensationRef

/-- Proposal lifecycle state. -/
inductive ProposalState : Type where
  | draft : ProposalState
  | proposed : ProposalState
  | appReview : ProposalState
  | accepted : ProposalState
  | rejected : ProposalState
  | transformed : ProposalState
  | expired : ProposalState
  deriving DecidableEq, Repr

/-- The `Debug` rendering. -/
def ProposalState.debug : ProposalState → String
  | .draft => "Draft"
  | .proposed => "Proposed"
  | .appReview => "AppReview"
  | .accepted => "Accepted"
  | .rejected => "Rejected"
  | .transformed => "Transformed"
  | .expired => "Expired"

/-- The errors of the modelled operations. -/
inductive SurfaceError : Type where
  | missingCompensation (count : ℕ) : SurfaceError
  | illegalTransition (fromState toState : String) : SurfaceError
  deriving DecidableEq, Repr

/-- Action proposal. -/
structure ActionProposal where
  proposalId : ProposalId
  intentId : IntentId
  traceId : TraceId
  tenantId : TenantId
  summary : String
  rationale : String
  mutations : List StateMutationProposal
  artifacts : List ArtifactId
  uiHints : UiHints
  compensationRef : Option CompensationRef
  expiresAt : ℤ
  approvalState : ProposalState
  createdAt : ℤ

namespace ActionProposal

/-- `ActionProposal::build`: a draft, unless it mutates without a compensation. The fresh id
and the clock are arguments. -/
def build (proposalId : ProposalId) (now : ℤ) (intentId : IntentId) (traceId : TraceId)
    (tenantId : TenantId) (summary rationale : String) (mutations : List StateMutationProposal)
    (artifacts : List ArtifactId) (uiHints : UiHints) (compensationRef : Option CompensationRef)
    (expiresAt : ℤ) : Except SurfaceError ActionProposal :=
  if !mutations.isEmpty && compensationRef.isNone then
    .error (.missingCompensation mutations.length)
  else
    .ok ⟨proposalId, intentId, traceId, tenantId, summary, rationale, mutations, artifacts, uiHints,
      compensationRef, expiresAt, .draft, now⟩

/-- The transitions that `transition_to` lets pass. -/
def legal : ProposalState → ProposalState → Bool
  | .draft, .proposed => true
  | .proposed, .appReview => true
  | .appReview, .accepted | .appReview, .rejected => true
  | .appReview, .transformed | .appReview, .expired => true
  | _, _ => false

/-- `ActionProposal::transition_to`. -/
def transitionTo (p : ActionProposal) (next : ProposalState) :
    Except SurfaceError Unit × ActionProposal :=
  if legal p.approvalState next then (.ok (), { p with approvalState := next })
  else (.error (.illegalTransition p.approvalState.debug next.debug), p)

end ActionProposal

namespace ProposalLifecycle

/-- `ProposalLifecycle::publish`: two transitions, the second one after the first. -/
def publish (p : ActionProposal) : Except SurfaceError Unit × ActionProposal :=
  match p.transitionTo .proposed with
  | (.error e, p) => (.error e, p)
  | (.ok (), p) => p.transitionTo .appReview

/-- `ProposalLifecycle::accept`. -/
def accept (p : ActionProposal) : Except SurfaceError Unit × ActionProposal :=
  p.transitionTo .accepted

/-- `ProposalLifecycle::reject`. -/
def reject (p : ActionProposal) : Except SurfaceError Unit × ActionProposal :=
  p.transitionTo .rejected

/-- `ProposalLifecycle::transform`. -/
def transform (p : ActionProposal) : Except SurfaceError Unit × ActionProposal :=
  p.transitionTo .transformed

/-- `ProposalLifecycle::expire`. -/
def expire (p : ActionProposal) : Except SurfaceError Unit × ActionProposal :=
  p.transitionTo .expired

/-- An operation of the lifecycle. -/
inductive Op : Type where
  | publish : Op
  | accept : Op
  | reject : Op
  | transform : Op
  | expire : Op
  deriving DecidableEq, Repr

/-- An operation and the instant it is called at. -/
structure Event where
  now : ℤ
  op : Op
  deriving DecidableEq, Repr

/-- The operations come in the order of their instants. -/
def Timed (events : List Event) : Prop := events.Pairwise fun e e' => e.now ≤ e'.now

instance (events : List Event) : Decidable (Timed events) :=
  inferInstanceAs (Decidable (events.Pairwise _))

/-- One operation; the instant is not asked for. -/
def exec (p : ActionProposal) (e : Event) : Except SurfaceError Unit × ActionProposal :=
  match e.op with
  | .publish => publish p
  | .accept => accept p
  | .reject => reject p
  | .transform => transform p
  | .expire => expire p

/-! ## One operation -/

/-- The state an operation starts from. -/
def source : Op → ProposalState
  | .publish => .draft
  | _ => .appReview

/-- The state an operation leads to. -/
def target : Op → ProposalState
  | .publish => .appReview
  | .accept => .accepted
  | .reject => .rejected
  | .transform => .transformed
  | .expire => .expired

/-- **One operation** succeeds from its source and leads to its target; from any other state
it fails and changes nothing. -/
theorem exec_cases (p : ActionProposal) (e : Event) :
    (p.approvalState = source e.op ∧
      exec p e = (.ok (), { p with approvalState := target e.op })) ∨
    (p.approvalState ≠ source e.op ∧ ∃ error, exec p e = (.error error, p)) := by
  obtain ⟨now, op⟩ := e
  rcases hstate : p.approvalState <;> cases op <;>
    simp [exec, publish, accept, reject, transform, expire, ActionProposal.transitionTo,
      ActionProposal.legal, source, target, hstate]

/-! ## Runs -/

/-- The proposal after the operations. -/
def after (p : ActionProposal) (events : List Event) : ActionProposal := Machine.run exec p events

/-- The operations, their results and the proposal between them. -/
def history (p : ActionProposal) (events : List Event) :
    List (Machine.Step ActionProposal Event (Except SurfaceError Unit)) :=
  Machine.trace exec p events

variable {p : ActionProposal} {e : Event} {events : List Event}

theorem exec_of_ne (h : p.approvalState ≠ source e.op) : (exec p e).2 = p := by
  rcases exec_cases p e with ⟨hsource, -⟩ | ⟨-, error, heq⟩
  · exact absurd hsource h
  · rw [heq]

/-- An expired proposal stays as it is. -/
theorem after_expired (h : p.approvalState = .expired) (events : List Event) :
    after p events = p := by
  induction events with
  | nil => rfl
  | cons e events ih =>
    have hne : p.approvalState ≠ source e.op := by
      rw [h]
      cases e.op <;> decide
    rw [after, Machine.run, exec_of_ne hne]
    exact ih

/-- Nothing but the approval state ever changes. -/
theorem after_eq (p : ActionProposal) (events : List Event) :
    after p events = { p with approvalState := (after p events).approvalState } := by
  induction events using List.reverseRecOn with
  | nil => rfl
  | append_singleton events e ih =>
    have hrun : after p (events ++ [e]) = (exec (after p events) e).2 := Machine.run_concat ..
    rw [hrun]
    rcases exec_cases (after p events) e with ⟨-, heq⟩ | ⟨-, error, heq⟩
    · rw [heq, ih]
    · rw [heq]
      exact ih

/-- A proposal that was marked expired is expired from then on. -/
theorem expired_of_mem_history
    {st : Machine.Step ActionProposal Event (Except SurfaceError Unit)}
    (hst : st ∈ history p events) (h : st.after.approvalState = .expired) :
    (after p events).approvalState = .expired := by
  obtain ⟨before, e, rest, rfl, rfl⟩ := Machine.mem_trace_iff.mp hst
  have hrun : after p (before ++ e :: rest) = after (exec (after p before) e).2 rest :=
    Machine.run_append p before (e :: rest)
  have hexpired : (exec (after p before) e).2.approvalState = .expired := h
  rw [hrun, after_expired hexpired]
  exact hexpired

/-- What holds of an operation `e` after the operations `earlier`: a failure changes nothing,
a proposal becomes accepted by `accept` in review and in no other way, unless it was marked
expired before; nothing but its state changes. -/
structure Follows (p : ActionProposal) (earlier : List Event) (e : Event) : Prop where
  failed : (exec (after p earlier) e).1 ≠ .ok () → (exec (after p earlier) e).2 = after p earlier
  accepts_iff : (after p earlier).approvalState ≠ .accepted ∧
      (exec (after p earlier) e).2.approvalState = .accepted ↔
    e.op = .accept ∧ (after p earlier).approvalState = .appReview
  unexpired : (exec (after p earlier) e).2.approvalState = .accepted →
    ∀ st ∈ history p earlier, st.after.approvalState ≠ .expired
  kept : (exec (after p earlier) e).2 =
    { p with approvalState := (exec (after p earlier) e).2.approvalState }

/-- **The lifecycle**, after any operations at any instants. Whether an accept goes through
depends on the state alone, and not on `expires_at`. -/
theorem lifecycle_run (p : ActionProposal) (earlier : List Event) (e : Event) :
    Follows p earlier e := by
  have hrun : after p (earlier ++ [e]) = (exec (after p earlier) e).2 := Machine.run_concat ..
  refine ⟨fun hfailed => ?_, ?_, fun haccepted st hst hexpired => ?_, ?_⟩
  · rcases exec_cases (after p earlier) e with ⟨-, heq⟩ | ⟨-, error, heq⟩
    · rw [heq] at hfailed
      exact absurd rfl hfailed
    · rw [heq]
  · rcases exec_cases (after p earlier) e with ⟨hsource, heq⟩ | ⟨hne, error, heq⟩
    · rw [heq, hsource]
      cases e.op <;> simp [source, target]
    · rw [heq]
      constructor
      · rintro ⟨hnot, haccepted⟩
        exact absurd haccepted hnot
      · rintro ⟨hop, hreview⟩
        rw [hop] at hne
        exact absurd hreview hne
  · have hstill := expired_of_mem_history hst hexpired
    have hne : (after p earlier).approvalState ≠ source e.op := by
      rw [hstill]
      cases e.op <;> decide
    rw [exec_of_ne hne, hstill] at haccepted
    cases haccepted
  · rw [← hrun]
    exact after_eq p _

/-- A hint that expires five minutes after it was built. -/
def hint : ActionProposal :=
  ⟨⟨"prop-1"⟩, ⟨"int-1"⟩, ⟨"trace-1"⟩, ⟨"tenant-a"⟩, "hint", "fyi", [], [], .default, none,
    300, .draft, 0⟩

/-- It is accepted a minute after that. -/
theorem hint_accepted_late :
    Timed [⟨10, .publish⟩, ⟨360, .accept⟩] ∧
      (after hint [⟨10, .publish⟩]).approvalState = .appReview ∧
      (exec (after hint [⟨10, .publish⟩]) ⟨360, .accept⟩).2.approvalState = .accepted ∧
      ¬ (360 : ℤ) ≤ hint.expiresAt :=
  ⟨by decide, rfl, rfl, by decide⟩

end ProposalLifecycle

end Aaf
