import Aaf.Loop
import Aaf.Node

/-!
# The agent node

`AgentNode::run` (`aaf-runtime`): a chat with a language model in which every reply
may ask for a tool, bounded by `max_tool_calls` (Rule 27).

Provider and tool executor are outside code. They are functions that pass a world `ω`
along, so that an answer may depend on everything asked before; clock readings come
from the world as well. Every call of either is written to a log that the code does not
read. The counters of tokens are `u64`, taken as unbounded.
-/

namespace Aaf

/-! ## Tools -/

/-- A tool as it is offered to the model. -/
structure ToolDefinition where
  name : String
  description : String
  inputSchema : Json
  outputSchema : Json
  sideEffect : SideEffect
  capabilityId : CapabilityId

/-- `ToolDefinition::from`: the tool of a registered capability (Rule 25). -/
def ToolDefinition.ofCapability (cap : CapabilityContract) : ToolDefinition where
  name := cap.name
  description := cap.description
  inputSchema := cap.inputSchema
  outputSchema := cap.outputSchema
  sideEffect := cap.sideEffect
  capabilityId := cap.id

/-- How the model should choose tools; `auto` is the default. -/
inductive ToolChoice : Type where
  | auto : ToolChoice
  | none : ToolChoice
  | specific (name : String) : ToolChoice
  deriving DecidableEq, Repr

/-- Why an agent turn ended. -/
inductive StopReason : Type where
  | endTurn : StopReason
  | toolUse : StopReason
  | maxTokens : StopReason
  | budgetExhausted : StopReason
  | cancelled : StopReason
  deriving DecidableEq, Repr

/-- The `Debug` rendering. -/
def StopReason.debug : StopReason → String
  | endTurn => "EndTurn"
  | toolUse => "ToolUse"
  | maxTokens => "MaxTokens"
  | budgetExhausted => "BudgetExhausted"
  | cancelled => "Cancelled"

/-- A tool invocation requested by the model. -/
structure ToolUseBlock where
  id : String
  name : String
  input : Json

/-- The result of executing a tool, sent back to the model. -/
structure ToolResultBlock where
  toolUseId : String
  content : String
  isError : Bool

/-- `ToolCallRecord`. -/
structure ToolCallRecord where
  name : String
  input : Json
  output : String
  durationMs : ℕ

/-- The record as the serializer writes it. -/
def ToolCallRecord.toJson (r : ToolCallRecord) : Json :=
  .obj [("name", .str r.name), ("input", r.input), ("output", .str r.output),
    ("duration_ms", .num (.finite r.durationMs))]

/-! ## Chats -/

/-- Chat role. -/
inductive Role : Type where
  | system : Role
  | user : Role
  | assistant : Role
  | toolUse : Role
  | toolResult : Role
  deriving DecidableEq, Repr

/-- One chat message. -/
structure ChatMessage where
  role : Role
  content : String
  toolUse : Option ToolUseBlock
  toolResult : Option ToolResultBlock

namespace ChatMessage

/-- `ChatMessage::system`. -/
def system (content : String) : ChatMessage := ⟨.system, content, none, none⟩

/-- `ChatMessage::user`. -/
def user (content : String) : ChatMessage := ⟨.user, content, none, none⟩

/-- `ChatMessage::tool_use_msg`. -/
def toolUseMsg (block : ToolUseBlock) : ChatMessage := ⟨.toolUse, "", some block, none⟩

/-- `ChatMessage::tool_result_msg`. -/
def toolResultMsg (block : ToolResultBlock) : ChatMessage :=
  ⟨.toolResult, block.content, none, some block⟩

end ChatMessage

/-- Chat completion request. -/
structure ChatRequest where
  model : String
  temperature : F64
  maxOutputTokens : ℕ
  messages : List ChatMessage
  tools : List ToolDefinition
  toolChoice : ToolChoice

/-- Chat completion response. -/
structure ChatResponse where
  content : String
  tokensIn : ℕ
  tokensOut : ℕ
  costUsd : F64
  model : String
  stopReason : StopReason
  toolUse : Option ToolUseBlock

/-- Errors of a provider. -/
inductive LLMError : Type where
  | provider (what : String) : LLMError
  | budgetExceeded : LLMError
  | rateLimited (retryAfter : ℕ) : LLMError
  | invalidRequest (what : String) : LLMError
  | authError (what : String) : LLMError
  | timeout : LLMError
  deriving DecidableEq, Repr

/-- The `Display` rendering. -/
def LLMError.display : LLMError → String
  | provider what => "provider error: " ++ what
  | budgetExceeded => "call budget exceeded"
  | rateLimited retryAfter => "rate limited (retry after " ++ toString retryAfter ++ "s)"
  | invalidRequest what => "invalid request: " ++ what
  | authError what => "auth error: " ++ what
  | timeout => "request timed out"

/-! ## The agent -/

/-- `LLMProvider::chat`. -/
abbrev Provider (ω : Type) : Type := ChatRequest → ω → Except LLMError ChatResponse × ω

/-- `ToolExecutor::execute`. -/
abbrev ToolExecutor (ω : Type) : Type := String → Json → ω → Except RuntimeError String × ω

/-- `AgentNode`, with its two clock readings. -/
structure AgentNode (ω : Type) where
  id : NodeId
  provider : Provider ω
  system : String
  model : String
  maxOutputTokens : ℕ
  tools : List ToolDefinition
  toolExecutor : Option (ToolExecutor ω)
  maxToolCalls : ℕ
  /-- `tool_started.elapsed()`, after the tool returned -/
  toolElapsedMs : ω → ℕ
  /-- `started.elapsed()`, at the end -/
  elapsedMs : ω → ℕ

/-- `DEFAULT_MAX_TOOL_CALLS`. -/
def defaultMaxToolCalls : ℕ := 10

/-- A call out of the loop, with its answer. -/
inductive AgentEvent : Type where
  | chatted (req : ChatRequest) (result : Except LLMError ChatResponse) : AgentEvent
  | executed (name : String) (input : Json) (result : Except RuntimeError String) : AgentEvent

/-- The variables of the loop, with the world and the log. -/
structure AgentState (ω : Type) where
  messages : List ChatMessage
  totalTokens : ℕ
  totalCost : F64
  toolCalls : List ToolCallRecord
  finalStopReason : StopReason
  lastModel : String
  world : ω
  log : List AgentEvent

/-- Where a turn leaves the loop: by `break` with the final content, or by `?`. -/
structure AgentBreak (ω : Type) where
  result : Except RuntimeError String
  state : AgentState ω

namespace AgentNode

variable {ω : Type}

/-- `AgentNode::new`. -/
def new (id : NodeId) (provider : Provider ω) (system model : String) (maxOutputTokens : ℕ)
    (toolElapsedMs elapsedMs : ω → ℕ) : AgentNode ω :=
  ⟨id, provider, system, model, maxOutputTokens, [], none, defaultMaxToolCalls, toolElapsedMs,
    elapsedMs⟩

/-- `AgentNode::with_tools`. -/
def withTools (agent : AgentNode ω) (tools : List ToolDefinition) (executor : ToolExecutor ω) :
    AgentNode ω :=
  { agent with tools := tools, toolExecutor := some executor }

/-- `AgentNode::with_max_tool_calls`. -/
def withMaxToolCalls (agent : AgentNode ω) (max : ℕ) : AgentNode ω :=
  { agent with maxToolCalls := max }

/-- `!self.tools.is_empty() && self.tool_executor.is_some()`. -/
def hasTools (agent : AgentNode ω) : Bool := !agent.tools.isEmpty && agent.toolExecutor.isSome

/-- The request of a turn. -/
def request (agent : AgentNode ω) (messages : List ChatMessage) : ChatRequest where
  model := agent.model
  temperature := .finite (1 / 5)
  maxOutputTokens := agent.maxOutputTokens
  messages := messages
  tools := if agent.hasTools then agent.tools else []
  toolChoice := .auto

/-- The state after a call of the provider, before its answer is looked at. -/
def chat (agent : AgentNode ω) (st : AgentState ω) : AgentState ω :=
  { st with
    world := (agent.provider (agent.request st.messages) st.world).2
    log := st.log ++ [.chatted (agent.request st.messages)
      (agent.provider (agent.request st.messages) st.world).1] }

/-- Count a response. -/
def count (st : AgentState ω) (resp : ChatResponse) : AgentState ω :=
  { st with
    totalTokens := st.totalTokens + (resp.tokensIn + resp.tokensOut)
    totalCost := st.totalCost + resp.costUsd
    lastModel := resp.model
    finalStopReason := resp.stopReason }

/-- The state after a call of the tool executor, before its answer is looked at. -/
def callTool (executor : ToolExecutor ω) (toolUse : ToolUseBlock) (st : AgentState ω) :
    AgentState ω :=
  { st with
    world := (executor toolUse.name toolUse.input st.world).2
    log := st.log ++ [.executed toolUse.name toolUse.input
      (executor toolUse.name toolUse.input st.world).1] }

/-- Record a tool call, and tell the model what happened. -/
def recordTool (agent : AgentNode ω) (toolUse : ToolUseBlock) (output : String)
    (st : AgentState ω) : AgentState ω :=
  { st with
    toolCalls := st.toolCalls ++
      [⟨toolUse.name, toolUse.input, output, agent.toolElapsedMs st.world⟩]
    messages := st.messages ++
      [.toolUseMsg toolUse, .toolResultMsg ⟨toolUse.id, output, false⟩] }

/-- Execute the tool a response asks for; `?` on its error. -/
def useTool (agent : AgentNode ω) (executor : ToolExecutor ω) (toolUse : ToolUseBlock)
    (st : AgentState ω) : Except (AgentBreak ω) (AgentState ω) :=
  match (executor toolUse.name toolUse.input st.world).1 with
  | .error e => .error ⟨.error e, callTool executor toolUse st⟩
  | .ok output => .ok (agent.recordTool toolUse output (callTool executor toolUse st))

/-- What the loop does with a response. -/
def answer (agent : AgentNode ω) (turn : ℕ) (resp : ChatResponse) (st : AgentState ω) :
    Except (AgentBreak ω) (AgentState ω) :=
  if resp.stopReason ≠ .toolUse then .error ⟨.ok resp.content, st⟩
  else if turn ≥ agent.maxToolCalls then
    .error ⟨.ok resp.content, { st with finalStopReason := .budgetExhausted }⟩
  else
    match resp.toolUse, agent.toolExecutor with
    | some toolUse, some executor => agent.useTool executor toolUse st
    | _, _ => .error ⟨.ok resp.content, st⟩

/-- One turn of the loop. -/
def turnStep (agent : AgentNode ω) (st : AgentState ω) (turn : ℕ) :
    Except (AgentBreak ω) (AgentState ω) :=
  match (agent.provider (agent.request st.messages) st.world).1 with
  | .error e => .error ⟨.error (.node e.display), agent.chat st⟩
  | .ok resp => agent.answer turn resp (count (agent.chat st) resp)

/-- The variables before the first turn. -/
def start (agent : AgentNode ω) (intent : IntentEnvelope) (w : ω) : AgentState ω :=
  ⟨[.system agent.system, .user intent.goal], 0, 0, [], .endTurn, "", w, []⟩

/-- The output of a loop that ended with `content`. -/
def output (agent : AgentNode ω) (content : String) (st : AgentState ω) : NodeOutput where
  data := .obj [("content", .str content), ("stop_reason", .str st.finalStopReason.debug),
    ("tool_calls", .arr (st.toolCalls.map ToolCallRecord.toJson))]
  tokens := st.totalTokens
  costUsd := st.totalCost
  durationMs := agent.elapsedMs st.world
  model := some st.lastModel

/-- `for turn in 0..=self.max_tool_calls`, and how it was left. -/
def loop (agent : AgentNode ω) (intent : IntentEnvelope) (w : ω) : AgentBreak ω :=
  match (List.range (agent.maxToolCalls + 1)).foldlM agent.turnStep (agent.start intent w) with
  | .error b => b
  | .ok st => ⟨.ok "", st⟩

/-- `AgentNode::run`; the prior outputs are not read. -/
def run (agent : AgentNode ω) (intent : IntentEnvelope) (w : ω) :
    Except RuntimeError NodeOutput × AgentState ω :=
  let left := agent.loop intent w
  (left.result.map fun content => agent.output content left.state, left.state)

/-- The agent as a node of a graph, in the world it finds when it runs. -/
def toNode (agent : AgentNode ω) (w : ω) : Node :=
  .leaf
    { id := agent.id
      kind := .agent
      sideEffect := .none
      run := fun intent _ => (agent.run intent w).1 }

end AgentNode

end Aaf
