import Aaf.AgentLoop
import Aaf.Registry

/-!
# From a tool call to a capability

`GoverningToolExecutor::execute` (`aaf-runtime`): the name a model asks for is looked up
in the registry, and the capability found is handed to a service invoker, outside code
that passes the world along. Which capability that was is written down beside the world,
where neither the invoker nor the provider sees it.

A tool definition carries the id of its capability, but the call travels by display
name. `reachesOwn_iff`: the calls of a run reach the capabilities their tools were made
from exactly when no tool called has a namesake before it in the store's listing.
-/

namespace Aaf

/-! ## Invocations -/

/-- `InvocationContext`. -/
structure InvocationContext where
  traceId : String
  timeoutMs : ℕ
  callerScopes : List String
  deriving DecidableEq, Repr

/-- `InvocationResult`. -/
structure InvocationResult where
  output : Json
  latencyMs : ℕ

/-- `InvocationError`. -/
inductive InvocationError : Type where
  | unreachable (address : String) : InvocationError
  | timeout (timeoutMs : ℕ) : InvocationError
  | serviceError (status : ℕ) (body : String) : InvocationError
  | unsupportedKind (kind : String) : InvocationError
  | capabilityNotFound (name : String) : InvocationError
  | handlerError (message : String) : InvocationError
  deriving DecidableEq, Repr

/-- The `Display` rendering. -/
def InvocationError.display : InvocationError → String
  | unreachable address => "endpoint unreachable: " ++ address
  | timeout timeoutMs => "invocation timed out after " ++ toString timeoutMs ++ "ms"
  | serviceError status body => "service error (HTTP " ++ toString status ++ "): " ++ body
  | unsupportedKind kind => "unsupported endpoint kind: " ++ kind
  | capabilityNotFound name => "capability not found: " ++ name
  | handlerError message => "handler error: " ++ message

/-- `ServiceInvoker::invoke`. -/
abbrev ServiceInvoker (ω : Type) : Type :=
  CapabilityContract → Json → InvocationContext → ω →
    Except InvocationError InvocationResult × ω

/-- A call of the invoker: the tool name it was made for and the capability handed over. -/
structure Invocation where
  tool : String
  capability : CapabilityContract

/-- A world, and the calls of the invoker made in it. -/
structure Witnessed (ω : Type) where
  world : ω
  invoked : List Invocation

/-- `GoverningToolExecutor`, with the order its registry's store lists in. -/
structure GoverningToolExecutor (ω : Type) where
  invoker : ServiceInvoker ω
  registry : Registry
  order : ListOrder
  /-- `serde_json::to_string`, which does not fail on a value -/
  jsonToString : Json → String

namespace GoverningToolExecutor

variable {ω : Type}

/-- The context every call is made in. -/
def invocationContext : InvocationContext := ⟨"", 30000, []⟩

/-- `GoverningToolExecutor::execute`. -/
def execute (exec : GoverningToolExecutor ω) : ToolExecutor (Witnessed ω) := fun name input s =>
  match exec.registry.findByName exec.order name with
  | .error _ => (.error (.node ("capability not found: " ++ name)), s)
  | .ok cap =>
    let (result, world) := exec.invoker cap input invocationContext s.world
    let s := ⟨world, s.invoked ++ [⟨name, cap⟩]⟩
    match result with
    | .error e => (.error (.node e.display), s)
    | .ok result => (.ok (exec.jsonToString result.output), s)

/-- The agent with `tools` executed through `exec`. Its provider and clocks see the world
only. -/
def equip (exec : GoverningToolExecutor ω) (agent : AgentNode ω) (tools : List ToolDefinition) :
    AgentNode (Witnessed ω) :=
  AgentNode.withTools
    { id := agent.id
      provider := fun req s =>
        ((agent.provider req s.world).1, { s with world := (agent.provider req s.world).2 })
      system := agent.system
      model := agent.model
      maxOutputTokens := agent.maxOutputTokens
      tools := []
      toolExecutor := none
      maxToolCalls := agent.maxToolCalls
      toolElapsedMs := fun s => agent.toolElapsedMs s.world
      elapsedMs := fun s => agent.elapsedMs s.world }
    tools exec.execute

/-! ## What a call hands over -/

/-- A call hands over the capability found for its name, if there is one. -/
theorem execute_invoked (exec : GoverningToolExecutor ω) (name : String) (input : Json)
    (s : Witnessed ω) :
    (∃ cap, exec.registry.findByName exec.order name = .ok cap ∧
      (exec.execute name input s).2.invoked = s.invoked ++ [⟨name, cap⟩]) ∨
    ((∃ e, exec.registry.findByName exec.order name = .error e) ∧
      (exec.execute name input s).2.invoked = s.invoked) := by
  rw [execute]
  rcases hfind : exec.registry.findByName exec.order name with e | cap
  · exact Or.inr ⟨⟨e, rfl⟩, rfl⟩
  · refine Or.inl ⟨cap, rfl, ?_⟩
    dsimp only
    rcases (exec.invoker cap input invocationContext s.world).1 with e | result
    · rfl
    · rfl

/-- What a turn hands over: the capability found for the tool it is asked for. -/
theorem turn_invoked (exec : GoverningToolExecutor ω) (agent : AgentNode ω)
    (tools : List ToolDefinition) (st : AgentState (Witnessed ω)) (turn : ℕ) :
    (∃ resp toolUse executor cap, (exec.equip agent tools).reply st = .ok resp ∧
      AgentNode.Asks (exec.equip agent tools) turn resp toolUse executor ∧
      exec.registry.findByName exec.order toolUse.name = .ok cap ∧
      (AgentNode.stateOf ((exec.equip agent tools).turnStep st turn)).world.invoked =
        st.world.invoked ++ [⟨toolUse.name, cap⟩]) ∨
    (AgentNode.stateOf ((exec.equip agent tools).turnStep st turn)).world.invoked =
      st.world.invoked := by
  -- a chat hands nothing over
  have hchat : ((exec.equip agent tools).chat st).world.invoked = st.world.invoked := rfl
  obtain ⟨resp, toolUse, executor, hreply, hasks, -, hworld⟩ | ⟨-, -, hworld⟩ :=
    ((exec.equip agent tools).turnStep_cases st turn).effect
  · obtain rfl : exec.execute = executor := Option.some.inj hasks.present
    rw [hworld, ← hchat]
    obtain ⟨cap, hfind, hinvoked⟩ | ⟨-, hinvoked⟩ := exec.execute_invoked toolUse.name
      toolUse.input ((exec.equip agent tools).chat st).world
    · exact Or.inl ⟨resp, toolUse, exec.execute, cap, hreply, hasks, hfind, hinvoked⟩
    · exact Or.inr hinvoked
  · rw [hworld]
    exact Or.inr hchat

/-- Calls handed over earlier stay on record. -/
theorem turn_invoked_grows (exec : GoverningToolExecutor ω) (agent : AgentNode ω)
    (tools : List ToolDefinition) (st : AgentState (Witnessed ω)) (turn : ℕ) :
    st.world.invoked <+:
      (AgentNode.stateOf ((exec.equip agent tools).turnStep st turn)).world.invoked := by
  obtain ⟨_, _, _, _, -, -, -, h⟩ | h := exec.turn_invoked agent tools st turn
  · rw [h]
    exact List.prefix_append _ _
  · rw [h]

/-- The call that the provider asks for, in a turn the loop comes to, is on record at the
end of the run. -/
theorem asked_invoked (exec : GoverningToolExecutor ω) {agent : AgentNode ω}
    {tools : List ToolDefinition} {intent : IntentEnvelope} {s : Witnessed ω} {turn : ℕ}
    {st : AgentState (Witnessed ω)} {resp : ChatResponse} {toolUse : ToolUseBlock}
    {executor : ToolExecutor (Witnessed ω)} {cap : CapabilityContract}
    (hto : AgentNode.ComesTo (exec.equip agent tools) intent s turn st)
    (hreply : (exec.equip agent tools).reply st = .ok resp)
    (hasks : AgentNode.Asks (exec.equip agent tools) turn resp toolUse executor)
    (hfind : exec.registry.findByName exec.order toolUse.name = .ok cap) :
    ⟨toolUse.name, cap⟩ ∈ ((exec.equip agent tools).run intent s).2.world.invoked := by
  have hgrows := hto.rel (R := fun st st' => st.world.invoked <+: st'.world.invoked)
    (fun _ => List.prefix_refl _) (fun _ _ _ => List.IsPrefix.trans)
    fun st turn => exec.turn_invoked_grows agent tools st turn
  refine hgrows.subset ?_
  rw [(AgentNode.effect_of_asks hreply hasks).2]
  obtain rfl : exec.execute = executor := Option.some.inj hasks.present
  obtain ⟨found, hfound, hinvoked⟩ | ⟨⟨e, hmissing⟩, -⟩ := exec.execute_invoked toolUse.name
    toolUse.input ((exec.equip agent tools).chat st).world
  · cases hfind.symm.trans hfound
    rw [hinvoked]
    exact List.mem_append_right _ (List.mem_singleton.mpr rfl)
  · cases hfind.symm.trans hmissing

/-! ## A tool's own capability -/

/-- The calls handed over the capabilities that the tools they named stand for. -/
def ReachesOwn (tools : List ToolDefinition) (invoked : List Invocation) : Prop :=
  ∀ inv ∈ invoked, ∀ t ∈ tools, t.name = inv.tool →
    inv.capability.id = t.capabilityId ∧ inv.capability.sideEffect = t.sideEffect

/-- Every tool that the provider asks for, in a turn the loop comes to, is made from the
first capability listed with its name. -/
def AsksFirst (exec : GoverningToolExecutor ω) (agent : AgentNode ω) (tools : List ToolDefinition)
    (intent : IntentEnvelope) (s : Witnessed ω) : Prop :=
  ∀ turn st resp toolUse executor, AgentNode.ComesTo (exec.equip agent tools) intent s turn st →
    (exec.equip agent tools).reply st = .ok resp →
      AgentNode.Asks (exec.equip agent tools) turn resp toolUse executor →
        ∀ t ∈ tools, t.name = toolUse.name →
          exec.registry.ListedFirst exec.order t.name t.capabilityId

/-- **Own capabilities.** The calls of a run hand over the capabilities their tools were
made from exactly when no tool the provider asks for has a namesake listed before it. -/
theorem reachesOwn_iff (exec : GoverningToolExecutor ω) (agent : AgentNode ω)
    (caps : List CapabilityContract) (intent : IntentEnvelope) (w : ω)
    (hreach : exec.registry.Reachable)
    (hcaps : ∀ cap ∈ caps, exec.registry.lookup cap.id = some cap) :
    ReachesOwn (caps.map .ofCapability)
        ((exec.equip agent (caps.map .ofCapability)).run intent ⟨w, []⟩).2.world.invoked ↔
      exec.AsksFirst agent (caps.map .ofCapability) intent ⟨w, []⟩ := by
  refine ⟨fun hown turn st resp toolUse executor hto hreply hasks t ht hname => ?_,
    fun hasked => ?_⟩
  · obtain ⟨cap, hcap, rfl⟩ := List.mem_map.mp ht
    obtain ⟨found, hfind⟩ := Registry.findByName_of_mem exec.order (hcaps cap hcap)
    have hcalled : cap.name = toolUse.name := hname
    have hmem := exec.asked_invoked hto hreply hasks (hcalled ▸ hfind)
    have hid := (hown _ hmem _ ht hname).1
    -- what was found is stored under the tool's own id, so it is the tool's capability
    have hlookup := hreach.lookup_of_findByName hfind
    rw [show found.id = cap.id from hid, hcaps cap hcap] at hlookup
    obtain rfl : cap = found := Option.some.inj hlookup
    exact (hreach.listedFirst_iff (hcaps cap hcap)).mpr hfind
  · refine AgentNode.run_induction
      (I := fun st : AgentState (Witnessed ω) =>
        ReachesOwn (caps.map .ofCapability) st.world.invoked) ?_ ?_
    · intro inv hinv
      cases hinv
    intro turn st hto hst
    obtain ⟨resp, toolUse, executor, found, hreply, hasks, hfind, hinvoked⟩ | hinvoked :=
      exec.turn_invoked agent _ st turn
    · rw [hinvoked]
      intro inv hinv t ht hname
      obtain hinv | hinv := List.mem_append.mp hinv
      · exact hst inv hinv t ht hname
      obtain rfl := List.mem_singleton.mp hinv
      obtain ⟨cap, hcap, rfl⟩ := List.mem_map.mp ht
      have hfirst := hasked turn st resp toolUse executor hto hreply hasks _ ht hname
      have hown := (hreach.listedFirst_iff (hcaps cap hcap)).mp hfirst
      have hcalled : cap.name = toolUse.name := hname
      obtain rfl : found = cap := Except.ok.inj (hfind.symm.trans (hcalled ▸ hown))
      exact ⟨rfl, rfl⟩
    · rw [hinvoked]
      exact hst

/-! ## Two capabilities of one name -/

/-- A capability named `refund`. -/
def refund (id : String) (sideEffect : SideEffect) : CapabilityContract :=
  { CapabilityContract.plain ⟨id⟩ "refund" with
    sideEffect := sideEffect, compensation := some "cap-undo" }

/-- A quote of a refund and its payment, registered under one name and listed from the
newest. -/
def refundDesk : GoverningToolExecutor ℕ where
  invoker := fun _ _ _ w => (.ok ⟨.null, 0⟩, w)
  registry := ((Registry.inMemory.register (refund "cap-quote" .read)).2.register
    (refund "cap-pay" .payment)).2
  order := ⟨fun l => l, fun _ => .refl _⟩
  jsonToString := fun _ => "null"

theorem refundDesk_reachable : refundDesk.registry.Reachable :=
  .register (refund "cap-pay" .payment) (.register (refund "cap-quote" .read) .inMemory)

theorem refundDesk_registered :
    ∀ cap ∈ [refund "cap-quote" .read], refundDesk.registry.lookup cap.id = some cap := by
  intro cap hcap
  obtain rfl := List.mem_singleton.mp hcap
  rfl

theorem reachesOwn_iff_refundDesk :
    ReachesOwn ([refund "cap-quote" .read].map .ofCapability)
        ((refundDesk.equip (AgentNode.stockAgent "refund")
          ([refund "cap-quote" .read].map .ofCapability)).run Sample.intent
            ⟨0, []⟩).2.world.invoked ↔
      refundDesk.AsksFirst (AgentNode.stockAgent "refund")
        ([refund "cap-quote" .read].map .ofCapability) Sample.intent ⟨0, []⟩ :=
  reachesOwn_iff refundDesk (AgentNode.stockAgent "refund") [refund "cap-quote" .read]
    Sample.intent 0 refundDesk_reachable refundDesk_registered

/-- The agent is offered the quote, and its call makes the payment. -/
theorem refundDesk_pays :
    (refundDesk.registry.Reachable ∧
      (∀ cap ∈ [refund "cap-quote" .read], refundDesk.registry.lookup cap.id = some cap) ∧
      ([refund "cap-quote" .read].map (·.name)).Nodup) ∧
    ¬ ReachesOwn ([refund "cap-quote" .read].map .ofCapability)
        ((refundDesk.equip (AgentNode.stockAgent "refund")
          ([refund "cap-quote" .read].map .ofCapability)).run Sample.intent
            ⟨0, []⟩).2.world.invoked := by
  refine ⟨⟨refundDesk_reachable, refundDesk_registered, List.nodup_singleton _⟩, fun h => ?_⟩
  have hinvoked : ((refundDesk.equip (AgentNode.stockAgent "refund")
      ([refund "cap-quote" .read].map .ofCapability)).run Sample.intent
        ⟨0, []⟩).2.world.invoked = [⟨"refund", refund "cap-pay" .payment⟩] := rfl
  rw [hinvoked] at h
  have heffect := (h _ List.mem_cons_self _ List.mem_cons_self rfl).2
  cases heffect

end GoverningToolExecutor

end Aaf
