import Aaf.AgentTurns
import Aaf.ToolCalls

/-!
# Mock providers and in-process services

The two providers of `aaf-llm` that need no network, and `InProcessInvoker` (`aaf-runtime`),
which runs registered closures and keeps a log of its calls.

An agent whose provider asks for tools in its first turns, and whose tools do not fail, uses the
tools of a `Script`, one a turn (`Script.plays`), and then says why it stopped. `MockProvider`
asks as long as there are tools, so that its agent always stops at the limit
(`mock_exhausts`). `MultiTurnMockProvider` asks a given number of times, counted over all its
chats: `multiTurn_run`.
-/

namespace Aaf

/-! ## Providers -/

/-- The content of the last user message, or nothing. -/
def lastUser (messages : List ChatMessage) : String :=
  match messages.reverse.find? fun m => decide (m.role = .user) with
  | some m => m.content
  | none => ""

/-- `chars().count() / 4 + 1`. -/
def mockTokens (content : String) : ℕ := content.toList.length / 4 + 1

/-- The tokens of a request. -/
def mockTokensIn (req : ChatRequest) : ℕ := (req.messages.map fun m => mockTokens m.content).sum

/-- `cost_per_1k * (tokens as f64 / 1000.0)`. -/
def mockCost (costPer1k : F64) (tokens : ℕ) : F64 := costPer1k * (.finite tokens / .finite 1000)

/-- What a mock answers to a request, but for the content, the reason and the tool. -/
def mockResponse (costPer1k : F64) (req : ChatRequest) (content : String) (stopReason : StopReason)
    (toolUse : Option ToolUseBlock) : ChatResponse where
  content := content
  tokensIn := mockTokensIn req
  tokensOut := mockTokens (lastUser req.messages)
  costUsd := mockCost costPer1k (mockTokensIn req + mockTokens (lastUser req.messages))
  model := req.model
  stopReason := stopReason
  toolUse := toolUse

/-- `MockProvider`. -/
structure MockProvider where
  name : String
  costPer1k : F64

/-- `MockProvider::chat`: it asks for the first tool, and without tools it echoes. -/
def MockProvider.chat {ω : Type} (p : MockProvider) : Provider ω := fun req w =>
  match req.tools with
  | first :: _ =>
    (.ok (mockResponse p.costPer1k req "" .toolUse (some ⟨"mock-tc-1", first.name, .obj []⟩)), w)
  | [] =>
    (.ok (mockResponse p.costPer1k req ("[mock:" ++ p.name ++ "] " ++ lastUser req.messages)
      .endTurn none), w)

/-- What the multi-turn mock and the in-process invoker remember. -/
structure MockWorld where
  /-- chats of the mock so far -/
  callCount : ℕ
  /-- the calls of the invoker, with their inputs -/
  callLog : List (String × Json)

/-- `MultiTurnMockProvider`. -/
structure MultiTurnMockProvider where
  name : String
  costPer1k : F64
  toolCallsBeforeEnd : ℕ

/-- The tool that the mock asks for in its `current`-th chat, if it asks for one. -/
def MultiTurnMockProvider.toolIn (p : MultiTurnMockProvider) (tools : List ToolDefinition)
    (current : ℕ) : Option ToolDefinition :=
  if current ≤ p.toolCallsBeforeEnd then tools[(current - 1) % tools.length]? else none

/-- `MultiTurnMockProvider::chat`. -/
def MultiTurnMockProvider.chat (p : MultiTurnMockProvider) : Provider MockWorld := fun req w =>
  let current := w.callCount + 1
  let w := { w with callCount := current }
  match p.toolIn req.tools current with
  | some tool =>
    (.ok (mockResponse p.costPer1k req "" .toolUse (some ⟨"mock-tc-" ++ toString current, tool.name,
      .obj [("turn", .num (.finite current))]⟩)), w)
  | none =>
    (.ok (mockResponse p.costPer1k req
      ("[mock:" ++ p.name ++ "] final answer after " ++ toString current ++ " calls")
      .endTurn none), w)

/-! ## In-process services -/

/-- `InProcessInvoker`, less its log. -/
structure InProcessInvoker where
  handlers : HashMap String (Json → Except String Json)

namespace InProcessInvoker

/-- `InProcessInvoker::new`. -/
def new : InProcessInvoker := ⟨∅⟩

/-- `register`. -/
def register (inv : InProcessInvoker) (name : String) (handler : Json → Except String Json) :
    InProcessInvoker :=
  ⟨inv.handlers.insert name handler⟩

/-- `InProcessInvoker::invoke`; `elapsedMs` is its clock reading. -/
def invoke (inv : InProcessInvoker) (elapsedMs : MockWorld → ℕ) : ServiceInvoker MockWorld :=
  fun cap input _ w =>
    let w := { w with callLog := w.callLog ++ [(cap.name, input)] }
    match inv.handlers.lookup cap.name with
    | none => (.error (.capabilityNotFound cap.name), w)
    | some handler =>
      match handler input with
      | .error e => (.error (.handlerError e), w)
      | .ok output => (.ok ⟨output, elapsedMs w⟩, w)

end InProcessInvoker

/-! ## Scripts -/

namespace AgentNode

variable {ω : Type} {agent : AgentNode ω} {intent : IntentEnvelope} {w : ω}

/-- In the worlds `W`, the provider asks for the tools `uses` in the first `n` turns, and the
executor does not fail on them. -/
structure Script (agent : AgentNode ω) (executor : ToolExecutor ω) (uses : ℕ → ToolUseBlock)
    (n : ℕ) (W : ℕ → ω → Prop) : Prop where
  present : agent.toolExecutor = some executor
  asks : ∀ t < n, ∀ messages w, W t w → ∃ resp,
    (agent.provider (agent.request messages) w).1 = .ok resp ∧ resp.stopReason = .toolUse ∧
      resp.toolUse = some (uses t)
  serves : ∀ t < n, ∀ messages w, W t w → ∃ out,
    (executor (uses t).name (uses t).input (agent.provider (agent.request messages) w).2).1 =
        .ok out ∧
      W (t + 1)
        (executor (uses t).name (uses t).input (agent.provider (agent.request messages) w).2).2

/-- **A script is played.** The turns use the tools, one each. -/
theorem Script.plays {executor : ToolExecutor ω} {uses : ℕ → ToolUseBlock} {n : ℕ}
    {W : ℕ → ω → Prop} (h : Script agent executor uses n W) (hn : n ≤ agent.maxToolCalls)
    (intent : IntentEnvelope) (hw : W 0 w) :
    ∃ st, ComesTo agent intent w n st ∧ W n st.world := by
  have hfold : ∀ t ≤ n, ∃ st, (List.range t).foldlM agent.turnStep (agent.start intent w) =
      .ok st ∧ W t st.world := by
    intro t
    induction t with
    | zero => exact fun _ => ⟨agent.start intent w, rfl, hw⟩
    | succ t ih =>
      intro ht
      obtain ⟨st, hst, hW⟩ := ih (Nat.le_of_succ_le ht)
      obtain ⟨resp, hreply, hreason, hblock⟩ := h.asks t ht st.messages st.world hW
      obtain ⟨out, hout, hnext⟩ := h.serves t ht st.messages st.world hW
      refine ⟨agent.recordTool (uses t) out (callTool executor (uses t)
        (count (agent.chat st) resp)), ?_, hnext⟩
      rw [List.range_succ]
      refine Loop.foldlM_concat_ok.mpr ⟨st, hst, ?_⟩
      have hout' : (executor (uses t).name (uses t).input
        (count (agent.chat st) resp).world).1 = .ok out := hout
      rw [turnStep, hreply]
      dsimp only
      rw [answer, if_neg (not_not.mpr hreason), if_neg (Nat.not_le.mpr (lt_of_lt_of_le ht hn)),
        hblock, h.present]
      dsimp only
      rw [useTool, hout']
  obtain ⟨st, hst, hW⟩ := hfold n le_rfl
  have hcut := @List.range'_append_1 0 n (agent.maxToolCalls - n + 1)
  have hlength : n + (agent.maxToolCalls - n + 1) = agent.maxToolCalls + 1 := by omega
  rw [Nat.zero_add, hlength, List.range'_succ] at hcut
  refine ⟨st, ⟨List.range n, List.range' (n + 1) (agent.maxToolCalls - n), ?_, hst⟩, hW⟩
  rw [List.range_eq_range', List.range_eq_range', hcut]

/-- How the run ends when the turn after the script is answered without another tool. -/
theorem run_of_comesTo {n : ℕ} {st : AgentState ω} (h : ComesTo agent intent w n st)
    {resp : ChatResponse} (hreply : agent.reply st = .ok resp)
    (hquiet : resp.stopReason ≠ .toolUse ∨ agent.maxToolCalls ≤ n) :
    ∃ out, (agent.run intent w).1 = .ok out ∧ out.Reports (agent.finalReason n resp) ∧
      (agent.run intent w).2.world = (agent.chat st).world := by
  obtain ⟨pre, post, hsplit, hpre⟩ := h
  have hturn : agent.turnStep st n = .error ⟨.ok resp.content,
      { count (agent.chat st) resp with finalStopReason := agent.finalReason n resp }⟩ := by
    have hreply' : (agent.provider (agent.request st.messages) st.world).1 = .ok resp := hreply
    rw [turnStep, hreply']
    dsimp only
    rw [answer, finalReason]
    by_cases hreason : resp.stopReason = .toolUse
    · have hlimit : agent.maxToolCalls ≤ n := hquiet.resolve_left (not_not.mpr hreason)
      rw [if_neg (not_not.mpr hreason), if_pos hlimit, if_pos ⟨hreason, hlimit⟩]
    · rw [if_pos hreason, if_neg fun h => hreason h.1]
      rfl
  have hloop : agent.loop intent w = ⟨.ok resp.content,
      { count (agent.chat st) resp with finalStopReason := agent.finalReason n resp }⟩ := by
    rw [loop, hsplit, Loop.foldlM_error_iff.mpr ⟨pre, n, post, st, rfl, hpre, hturn⟩]
  rw [run, hloop]
  exact ⟨_, rfl, output_reports.mpr rfl, rfl⟩

end AgentNode

/-! ## Agents with mocks -/

/-- Calls by the name are served: it is the name of a capability, and its handler does not fail. -/
def InProcessInvoker.Serves (inv : InProcessInvoker) (r : Registry) (order : ListOrder)
    (name : String) : Prop :=
  ∃ cap handler, r.findByName order name = .ok cap ∧ inv.handlers.lookup name = some handler ∧
    ∀ input, ∃ output, handler input = .ok output

namespace GoverningToolExecutor

variable {inv : InProcessInvoker} {elapsedMs : MockWorld → ℕ} {r : Registry} {order : ListOrder}
  {jsonToString : Json → String} {name : String} {tools : List ToolDefinition}
  {tool : ToolDefinition}

/-- A call that is served is logged, and answered. -/
theorem execute_of_serves (elapsedMs : MockWorld → ℕ) (jsonToString : Json → String)
    (h : inv.Serves r order name) (input : Json) (s : Witnessed MockWorld) :
    ∃ out, (execute ⟨inv.invoke elapsedMs, r, order, jsonToString⟩ name input s).1 = .ok out ∧
      (execute ⟨inv.invoke elapsedMs, r, order, jsonToString⟩ name input s).2.world =
        { s.world with callLog := s.world.callLog ++ [(name, input)] } := by
  obtain ⟨cap, handler, hfind, hhandler, hok⟩ := h
  obtain ⟨output, houtput⟩ := hok input
  obtain rfl : cap.name = name := (Registry.findByName_eq_ok_iff.mp hfind).1
  rw [execute, hfind]
  dsimp only
  rw [InProcessInvoker.invoke, hhandler]
  dsimp only
  rw [houtput]
  exact ⟨_, rfl, rfl⟩

/-- The requests of an agent offer its tools. -/
theorem tools_request (exec : GoverningToolExecutor MockWorld) (agent : AgentNode MockWorld)
    (htools : tools ≠ []) (messages : List ChatMessage) :
    ((exec.equip agent tools).request messages).tools = tools := by
  cases tools with
  | nil => exact absurd rfl htools
  | cons tool tools => rfl

/-- **The mock never has enough.** With a tool that is served, its agent calls the first one as
often as it may, and stops for that reason. -/
theorem mock_exhausts (elapsedMs : MockWorld → ℕ) (jsonToString : Json → String)
    (p : MockProvider) (agent : AgentNode MockWorld) (tools : List ToolDefinition)
    (h : inv.Serves r order tool.name)
    (intent : IntentEnvelope) (s : Witnessed MockWorld) :
    ∃ out, ((equip ⟨inv.invoke elapsedMs, r, order, jsonToString⟩
        { agent with provider := p.chat } (tool :: tools)).run intent s).1 = .ok out ∧
      out.Reports .budgetExhausted ∧
      ((equip ⟨inv.invoke elapsedMs, r, order, jsonToString⟩
        { agent with provider := p.chat } (tool :: tools)).run intent s).2.world.world.callLog =
        s.world.callLog ++ List.replicate agent.maxToolCalls (tool.name, .obj []) := by
  have hscript : AgentNode.Script
      (equip ⟨inv.invoke elapsedMs, r, order, jsonToString⟩ { agent with provider := p.chat }
        (tool :: tools))
      (execute ⟨inv.invoke elapsedMs, r, order, jsonToString⟩)
      (fun _ => ⟨"mock-tc-1", tool.name, .obj []⟩) agent.maxToolCalls
      (fun t s' => s'.world.callLog =
        s.world.callLog ++ List.replicate t (tool.name, .obj [])) := by
    refine ⟨rfl, fun t _ messages s' _ => ⟨_, rfl, rfl, rfl⟩, fun t _ messages s' hW => ?_⟩
    obtain ⟨out, hout, hworld⟩ := execute_of_serves elapsedMs jsonToString h (.obj []) s'
    refine ⟨out, hout, ?_⟩
    have hlog := congrArg MockWorld.callLog hworld
    refine hlog.trans ?_
    rw [hW, List.replicate_succ', List.append_assoc]
  obtain ⟨st, hto, hW⟩ := hscript.plays le_rfl intent (List.append_nil _).symm
  have hreply : AgentNode.reply (equip ⟨inv.invoke elapsedMs, r, order, jsonToString⟩
      { agent with provider := p.chat } (tool :: tools)) st =
      .ok (mockResponse p.costPer1k (AgentNode.request _ st.messages) "" .toolUse
        (some ⟨"mock-tc-1", tool.name, .obj []⟩)) := rfl
  obtain ⟨out, hrun, hreports, hworld⟩ := AgentNode.run_of_comesTo hto hreply (Or.inr le_rfl)
  refine ⟨out, hrun, ?_, ?_⟩
  · rw [AgentNode.finalReason, if_pos ⟨rfl, le_rfl⟩] at hreports
    exact hreports
  · rw [hworld]
    exact hW

/-- The `t`-th tool use that a multi-turn mock asks for when it has answered `before` chats. -/
def turnUse (tools : List ToolDefinition) (default : ToolDefinition) (before t : ℕ) :
    ToolUseBlock :=
  ⟨"mock-tc-" ++ toString (before + t + 1), (tools.getD ((before + t) % tools.length) default).name,
    .obj [("turn", .num (.finite (before + t + 1 : ℕ)))]⟩

/-- The mock takes the tools in turn. -/
theorem getElem?_mod (default : ToolDefinition) (htools : tools ≠ []) (k : ℕ) :
    tools[k % tools.length]? = some (tools.getD (k % tools.length) default) := by
  have hlt : k % tools.length < tools.length := Nat.mod_lt _ (List.length_pos_of_ne_nil htools)
  rw [List.getD, List.getElem?_eq_getElem hlt, Option.getD_some]

/-- The tool of a chat that asks for one. -/
theorem toolIn_eq_some (p : MultiTurnMockProvider) (default : ToolDefinition) (htools : tools ≠ [])
    {before t : ℕ} (h : before + t < p.toolCallsBeforeEnd) :
    p.toolIn tools (before + t + 1) =
      some (tools.getD ((before + t) % tools.length) default) := by
  rw [MultiTurnMockProvider.toolIn, if_pos (Nat.succ_le_of_lt h), Nat.add_sub_cancel,
    getElem?_mod default htools]

/-- What the mock does when it asks for a tool. -/
theorem chat_of_toolIn {p : MultiTurnMockProvider} {req : ChatRequest} {w : MockWorld}
    (h : p.toolIn req.tools (w.callCount + 1) = some tool) :
    p.chat req w = (.ok (mockResponse p.costPer1k req "" .toolUse
      (some ⟨"mock-tc-" ++ toString (w.callCount + 1), tool.name,
        .obj [("turn", .num (.finite (w.callCount + 1 : ℕ)))]⟩)),
      { w with callCount := w.callCount + 1 }) := by
  simp only [MultiTurnMockProvider.chat, h]

/-- What it does when it does not. -/
theorem chat_of_toolIn_none {p : MultiTurnMockProvider} {req : ChatRequest} {w : MockWorld}
    (h : p.toolIn req.tools (w.callCount + 1) = none) :
    ∃ content, p.chat req w = (.ok (mockResponse p.costPer1k req content .endTurn none),
      { w with callCount := w.callCount + 1 }) := by
  simp only [MultiTurnMockProvider.chat, h]
  exact ⟨_, rfl⟩

/-- The call that the invoker logs for it. -/
def turnCall (tools : List ToolDefinition) (default : ToolDefinition) (before t : ℕ) :
    String × Json :=
  ((turnUse tools default before t).name, (turnUse tools default before t).input)

/-- **A multi-turn mock.** When all tools are served, its agent uses one tool a turn, taking them
in turn from where earlier chats left off, until the mock or the agent has come to its limit; and
only when the agent has, it says so. -/
theorem multiTurn_run (elapsedMs : MockWorld → ℕ) (jsonToString : Json → String)
    (p : MultiTurnMockProvider) (agent : AgentNode MockWorld) (tool : ToolDefinition)
    (tools : List ToolDefinition) (h : ∀ t ∈ tool :: tools, inv.Serves r order t.name)
    (intent : IntentEnvelope) (s : Witnessed MockWorld) :
    let asked := p.toolCallsBeforeEnd - s.world.callCount
    let equipped := equip ⟨inv.invoke elapsedMs, r, order, jsonToString⟩
      { agent with provider := p.chat } (tool :: tools)
    ∃ out, (equipped.run intent s).1 = .ok out ∧
      out.Reports (if agent.maxToolCalls < asked then .budgetExhausted else .endTurn) ∧
      (equipped.run intent s).2.world.world =
        ⟨s.world.callCount + min asked agent.maxToolCalls + 1,
          s.world.callLog ++ (List.range (min asked agent.maxToolCalls)).map
            (turnCall (tool :: tools) tool s.world.callCount)⟩ := by
  intro asked equipped
  have htools : tool :: tools ≠ [] := List.cons_ne_nil _ _
  let W : ℕ → Witnessed MockWorld → Prop := fun t s' => s'.world =
    ⟨s.world.callCount + t,
      s.world.callLog ++ (List.range t).map (turnCall (tool :: tools) tool s.world.callCount)⟩
  -- in the world of a turn of the script, the mock asks for the tool of that turn
  have hchat : ∀ t, s.world.callCount + t < p.toolCallsBeforeEnd → ∀ messages s', W t s' →
      p.chat (equipped.request messages) s'.world =
        (.ok (mockResponse p.costPer1k (equipped.request messages) "" .toolUse
          (some (turnUse (tool :: tools) tool s.world.callCount t))),
          ⟨s.world.callCount + t + 1, s.world.callLog ++
            (List.range t).map (turnCall (tool :: tools) tool s.world.callCount)⟩) := by
    intro t ht messages s' hW
    rw [hW]
    exact chat_of_toolIn (toolIn_eq_some p tool htools ht)
  have hscript : AgentNode.Script equipped
      (execute ⟨inv.invoke elapsedMs, r, order, jsonToString⟩)
      (turnUse (tool :: tools) tool s.world.callCount) (min asked agent.maxToolCalls) W := by
    refine ⟨rfl, fun t ht messages s' hW => ?_, fun t ht messages s' hW => ?_⟩
    · have hasked := hchat t (by omega) messages s' hW
      exact ⟨_, congrArg Prod.fst hasked, rfl, rfl⟩
    · have hasked := hchat t (by omega) messages s' hW
      have hserves := h _ (List.mem_of_getElem? (getElem?_mod tool htools (s.world.callCount + t)))
      obtain ⟨out, hout, hworld⟩ := execute_of_serves elapsedMs jsonToString hserves
        (turnUse (tool :: tools) tool s.world.callCount t).input
        { s' with world := (p.chat (equipped.request messages) s'.world).2 }
      refine ⟨out, hout, hworld.trans ?_⟩
      rw [hasked, List.range_succ, List.map_append, ← List.append_assoc]
      rfl
  have hstart : W 0 s := by
    show s.world = ⟨s.world.callCount + 0, s.world.callLog ++ []⟩
    rw [List.append_nil]
    rfl
  obtain ⟨st, hto, hW⟩ := hscript.plays (Nat.min_le_right _ _) intent hstart
  by_cases hlimit : agent.maxToolCalls < asked
  · rw [Nat.min_eq_right hlimit.le] at hto hW ⊢
    have hasked := hchat agent.maxToolCalls (by omega) st.messages st.world hW
    obtain ⟨out, hrun, hreports, hworld⟩ := AgentNode.run_of_comesTo hto
      (congrArg Prod.fst hasked) (Or.inr le_rfl)
    refine ⟨out, hrun, ?_, ?_⟩
    · rw [AgentNode.finalReason, if_pos ⟨rfl, le_rfl⟩] at hreports
      rw [if_pos hlimit]
      exact hreports
    · rw [hworld]
      exact congrArg Prod.snd hasked
  · rw [Nat.min_eq_left (Nat.not_lt.mp hlimit)] at hto hW ⊢
    have hnone : p.toolIn (tool :: tools) (st.world.world.callCount + 1) = none := by
      rw [hW, MultiTurnMockProvider.toolIn, if_neg (by simp only; omega)]
    obtain ⟨content, hquiet⟩ :
        ∃ content, p.chat (equipped.request st.messages) st.world.world =
          (.ok (mockResponse p.costPer1k (equipped.request st.messages) content .endTurn none),
            { st.world.world with callCount := st.world.world.callCount + 1 }) :=
      chat_of_toolIn_none hnone
    obtain ⟨out, hrun, hreports, hworld⟩ := AgentNode.run_of_comesTo hto
      (congrArg Prod.fst hquiet) (Or.inl fun hreason => by cases hreason)
    refine ⟨out, hrun, ?_, ?_⟩
    · rw [AgentNode.finalReason, if_neg fun hand => by cases hand.1] at hreports
      rw [if_neg hlimit]
      exact hreports
    · rw [hworld]
      refine (congrArg Prod.snd hquiet).trans ?_
      rw [hW]

/-- A registry of one capability, by the order in which it is stored. -/
def shelf : Registry :=
  (Registry.inMemory.register (.plain ⟨"cap-stock"⟩ "check_stock")).2

/-- An agent that may use two tools. -/
def shelfAgent : AgentNode MockWorld :=
  (AgentNode.new ⟨"n-1"⟩ (fun _ w => (.error .timeout, w)) "You check stock." "mock-model" 1024
    (fun _ => 0) fun _ => 0).withMaxToolCalls 2

/-- The mock would go on, the agent does not. -/
theorem shelfAgent_multiTurn :
    ∃ out, ((equip ⟨(InProcessInvoker.new.register "check_stock" .ok).invoke fun _ => 0, shelf,
        ⟨id, fun l => .refl l⟩, fun _ => "{}"⟩
        { shelfAgent with provider := (⟨"multi", .finite 1, 10⟩ : MultiTurnMockProvider).chat }
        [.ofCapability (.plain ⟨"cap-stock"⟩ "check_stock")]).run Sample.intent ⟨⟨0, []⟩, []⟩).1 =
          .ok out ∧ out.Reports .budgetExhausted := by
  have hserves : ∀ t ∈ [ToolDefinition.ofCapability (.plain ⟨"cap-stock"⟩ "check_stock")],
      (InProcessInvoker.new.register "check_stock" .ok).Serves shelf ⟨id, fun l => .refl l⟩
        t.name := by
    intro t ht
    rw [List.mem_singleton.mp ht]
    exact ⟨_, _, rfl, rfl, fun input => ⟨input, rfl⟩⟩
  obtain ⟨out, hrun, hreports, -⟩ := multiTurn_run (fun _ => 0) (fun _ => "{}")
    ⟨"multi", .finite 1, 10⟩ shelfAgent (.ofCapability (.plain ⟨"cap-stock"⟩ "check_stock")) []
    hserves Sample.intent ⟨⟨0, []⟩, []⟩
  exact ⟨out, hrun, hreports⟩

end GoverningToolExecutor

end Aaf
