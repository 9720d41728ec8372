import Aaf.AgentTurns
import Aaf.Retry

/-!
# The Anthropic provider

`AnthropicProvider` (`aaf-llm`): a chat request is written as the body of a Messages API
request, sent until it is answered (transient errors are retried, with a growing pause), and
the answer is read back. `AgentNode.anthropic_run` says what an agent over it puts on the wire
in any run, and what it takes from there.

The transport, the clock, sleeping and two functions of the JSON library are outside code
(`Outside`). Everything the provider does to the outside is written to a log that the code does
not read. Pauses are `u64` milliseconds, taken as unbounded: the first that overflows comes
after 2^54 seconds of others.
-/

namespace Aaf

/-! ## JSON values -/

/-- `body["key"]`: `null` where there is no such field. -/
def Json.field (key : String) : Json → Json
  | .obj fields => (fields.find? fun f => decide (f.1 = key)).elim .null Prod.snd
  | _ => .null

/-- `Value::as_str`. -/
def Json.asStr : Json → Option String
  | .str s => some s
  | _ => none

/-- `Value::as_array`. -/
def Json.asArray : Json → Option (List Json)
  | .arr items => some items
  | _ => none

/-! ## Pricing -/

/-- `ModelPricing`. -/
structure ModelPricing where
  modelPrefix : String
  inputPerMtok : F64
  outputPerMtok : F64

/-- `calculate_cost`: the first entry whose prefix fits; an unknown model costs nothing. -/
def calculateCost (pricing : List ModelPricing) (model : String) (inputTokens outputTokens : ℕ) :
    F64 :=
  match pricing.find? fun p => model.startsWith p.modelPrefix with
  | some p => (.finite inputTokens * p.inputPerMtok + .finite outputTokens * p.outputPerMtok) /
      .finite 1000000
  | none => 0

/-- `anthropic_pricing`. -/
def anthropicPricing : List ModelPricing :=
  [⟨"claude-opus-4", .finite 15, .finite 75⟩, ⟨"claude-sonnet-4", .finite 3, .finite 15⟩,
    ⟨"claude-haiku-4", .finite (4 / 5), .finite 4⟩, ⟨"claude-3-5-sonnet", .finite 3, .finite 15⟩,
    ⟨"claude-3-5-haiku", .finite (4 / 5), .finite 4⟩, ⟨"claude-3-opus", .finite 15, .finite 75⟩]

/-! ## The outside -/

/-- Transport, clock and JSON library. -/
structure Outside (ω : Type) where
  /-- `HttpSender::send`: status and body -/
  send : Json → ω → Except LLMError (ℕ × Json) × ω
  /-- `subsec_nanos` of the system clock -/
  nanos : ω → ℕ
  sleep : ℕ → ω → ω
  /-- `Value::as_u64` -/
  asU64 : Json → Option ℕ
  /-- `Value::to_string` -/
  toText : Json → String

/-- What the provider does to the outside. -/
inductive WireEvent : Type where
  | sent (body : Json) (answer : Except LLMError (ℕ × Json)) : WireEvent
  | slept (ms : ℕ) : WireEvent
  /-- a failed `expect`; it unwinds, and nothing comes after it -/
  | panicked (message : String) : WireEvent

/-- A request was sent, and answered somehow. -/
def WireEvent.isSent : WireEvent → Bool
  | .sent _ _ => true
  | _ => false

/-- The world, and what was done to it. -/
structure Wire (ω : Type) where
  world : ω
  log : List WireEvent

/-- A chat on the wire: the answers that were passed over, each with the pause after it, and the
answer that decided. -/
structure Exchange where
  body : Json
  passed : List ((ℕ × Json) × ℕ)
  answer : Except LLMError (ℕ × Json)

/-- An answer that was passed over. -/
def passedEvents (body : Json) (a : (ℕ × Json) × ℕ) : List WireEvent :=
  [.sent body (.ok a.1), .slept a.2]

/-- The same body is sent every time. -/
def Exchange.events (x : Exchange) : List WireEvent :=
  x.passed.flatMap (passedEvents x.body) ++ [.sent x.body x.answer]

/-! ## The provider -/

/-- `AnthropicProvider`, but for the sender. -/
structure AnthropicProvider where
  defaultModel : String
  maxRetries : ℕ
  retryBaseDelayMs : ℕ
  pricing : List ModelPricing
  /-- no method sets the delay that `new` chooses -/
  base_pos : 0 < retryBaseDelayMs

namespace AnthropicProvider

variable {ω : Type}

/-- `AnthropicProvider::new`. -/
def new : AnthropicProvider :=
  ⟨"claude-sonnet-4-6-20250514", 3, 1000, anthropicPricing, by decide⟩

/-- `AnthropicProvider::with_model`. -/
def withModel (p : AnthropicProvider) (model : String) : AnthropicProvider :=
  { p with defaultModel := model }

/-- `AnthropicProvider::with_max_retries`. -/
def withMaxRetries (p : AnthropicProvider) (n : ℕ) : AnthropicProvider := { p with maxRetries := n }

/-- `AnthropicProvider::with_pricing`. -/
def withPricing (p : AnthropicProvider) (pricing : List ModelPricing) : AnthropicProvider :=
  { p with pricing := pricing }

/-- The model of a request. -/
def modelOf (p : AnthropicProvider) (req : ChatRequest) : String :=
  if req.model.isEmpty then p.defaultModel else req.model

/-! ### The body of a request -/

/-- A message with text. -/
def textJson (role content : String) : Json :=
  .obj [("role", .str role), ("content", .str content)]

/-- The message in which the assistant uses a tool. -/
def toolUseJson (tu : ToolUseBlock) : Json :=
  .obj [("role", .str "assistant"), ("content", .arr [.obj [("type", .str "tool_use"),
    ("id", .str tu.id), ("name", .str tu.name), ("input", tu.input)]])]

/-- The message with the result of a tool. -/
def toolResultJson (tr : ToolResultBlock) : Json :=
  .obj [("role", .str "user"), ("content", .arr [.obj [("type", .str "tool_result"),
    ("tool_use_id", .str tr.toolUseId), ("content", .str tr.content)]])]

/-- `map_message`, or the message of the `expect` that fails. -/
def mapMessage (msg : ChatMessage) : Except String Json :=
  match msg.role with
  | .user => .ok (textJson "user" msg.content)
  | .assistant =>
    match msg.toolUse with
    | some tu => .ok (toolUseJson tu)
    | none => .ok (textJson "assistant" msg.content)
  | .toolUse =>
    match msg.toolUse with
    | some tu => .ok (toolUseJson tu)
    | none => .error "ToolUse role requires tool_use block"
  | .toolResult =>
    match msg.toolResult with
    | some tr => .ok (toolResultJson tr)
    | none => .error "ToolResult role requires tool_result block"
  | .system => .ok (textJson "user" "")

/-- The text of the system messages. -/
def systemText (messages : List ChatMessage) : String :=
  "\n".intercalate ((messages.filter fun m => decide (m.role = .system)).map (·.content))

/-- A tool on offer. -/
def toolJson (t : ToolDefinition) : Json :=
  .obj [("name", .str t.name), ("description", .str t.description),
    ("input_schema", t.inputSchema)]

/-- How to choose among them. -/
def toolChoiceJson : ToolChoice → Json
  | .auto => .obj [("type", .str "auto")]
  | .none => .obj [("type", .str "none")]
  | .specific name => .obj [("type", .str "tool"), ("name", .str name)]

/-- The body with its messages written out: `system` and the tools are there if there are any. -/
def bodyWith (p : AnthropicProvider) (req : ChatRequest) (messages : List Json) : Json :=
  .obj ([("model", .str (p.modelOf req)),
      ("max_tokens",
        .num (.finite (if req.maxOutputTokens > 0 then req.maxOutputTokens else 1024 : ℕ))),
      ("messages", .arr messages)] ++
    (if (systemText req.messages).isEmpty then []
      else [("system", .str (systemText req.messages))]) ++
    (if req.tools.isEmpty then []
      else [("tools", .arr (req.tools.map toolJson)),
        ("tool_choice", toolChoiceJson req.toolChoice)]))

/-- `AnthropicProvider::build_request_body`. -/
def buildRequestBody (p : AnthropicProvider) (req : ChatRequest) : Except String Json :=
  ((req.messages.filter fun m => decide (m.role ≠ .system)).mapM mapMessage).map (p.bodyWith req)

/-! ### Reading a response -/

/-- `as u32`. -/
def asU32 (n : ℕ) : ℕ := n % 2 ^ 32

/-- A field of the usage; nothing is 0. -/
def usage (out : Outside ω) (body : Json) (key : String) : ℕ :=
  asU32 ((out.asU64 ((body.field "usage").field key)).getD 0)

/-- The reason; `end_turn` where there is none. -/
def stopReasonOf (body : Json) : StopReason :=
  match (body.field "stop_reason").asStr.getD "end_turn" with
  | "tool_use" => .toolUse
  | "max_tokens" => .maxTokens
  | _ => .endTurn

/-- The text and the tool of the blocks so far, and one more block: text is appended, and the
last tool counts. -/
def readBlock (read : String × Option ToolUseBlock) (block : Json) :
    String × Option ToolUseBlock :=
  match (block.field "type").asStr with
  | some "text" => (read.1 ++ (block.field "text").asStr.getD "", read.2)
  | some "tool_use" => (read.1, some ⟨(block.field "id").asStr.getD "",
      (block.field "name").asStr.getD "", block.field "input"⟩)
  | _ => read

/-- `AnthropicProvider::parse_response`, which has no error. -/
def parseResponse (p : AnthropicProvider) (out : Outside ω) (body : Json) (model : String) :
    ChatResponse :=
  let read := ((body.field "content").asArray.getD []).foldl readBlock ("", none)
  { content := read.1
    tokensIn := usage out body "input_tokens"
    tokensOut := usage out body "output_tokens"
    costUsd := calculateCost p.pricing model (usage out body "input_tokens")
      (usage out body "output_tokens")
    model := model
    stopReason := stopReasonOf body
    toolUse := read.2 }

/-! ### Sending -/

/-- One call of the sender. -/
def sendOnce (out : Outside ω) (body : Json) (w : Wire ω) :
    Except LLMError (ℕ × Json) × Wire ω :=
  let answered := out.send body w.world
  (answered.1, ⟨answered.2, w.log ++ [.sent body answered.1]⟩)

/-- `429 | 500 | 502 | 503 | 529`. -/
def isTransient (status : ℕ) : Bool := [429, 500, 502, 503, 529].contains status

/-- `base + jitter`, the pause after the attempt of this number. -/
def delay (p : AnthropicProvider) (out : Outside ω) (attempt : ℕ) (w : ω) : ℕ :=
  p.retryBaseDelayMs * 2 ^ attempt + out.nanos w % p.retryBaseDelayMs

/-- `tokio::time::sleep`. -/
def pause (p : AnthropicProvider) (out : Outside ω) (attempt : ℕ) (w : Wire ω) : Wire ω :=
  ⟨out.sleep (p.delay out attempt w.world) w.world,
    w.log ++ [.slept (p.delay out attempt w.world)]⟩

/-- `HTTP {status}: {body}`. -/
def httpError (out : Outside ω) (status : ℕ) (body : Json) : LLMError :=
  .provider ("HTTP " ++ toString status ++ ": " ++ out.toText body)

/-- What the answer to an attempt leads to: `return`, `?`, or the next attempt. -/
def onAnswer (p : AnthropicProvider) (out : Outside ω) (attempt : ℕ) (w : Wire ω) :
    Except LLMError (ℕ × Json) → Except (Except LLMError Json × Wire ω) (Wire ω)
  | .error e => .error (.error e, w)
  | .ok (status, respBody) =>
    if status = 200 then .error (.ok respBody, w)
    else if status = 400 then .error (.error (.invalidRequest (out.toText respBody)), w)
    else if status = 401 ∨ status = 403 then .error (.error (.authError (out.toText respBody)), w)
    else if isTransient status then
      if attempt ≥ p.maxRetries then
        if status = 429 then .error (.error (.rateLimited 0), w)
        else .error (.error (httpError out status respBody), w)
      else .ok (p.pause out attempt w)
    else .error (.error (httpError out status respBody), w)

/-- One attempt. -/
def attempt (p : AnthropicProvider) (out : Outside ω) (body : Json) (w : Wire ω) (n : ℕ) :
    Except (Except LLMError Json × Wire ω) (Wire ω) :=
  p.onAnswer out n (sendOnce out body w).2 (sendOnce out body w).1

/-- `AnthropicProvider::send_with_retry`. -/
def sendWithRetry (p : AnthropicProvider) (out : Outside ω) (body : Json) (w : Wire ω) :
    Except LLMError Json × Wire ω :=
  match (List.range (p.maxRetries + 1)).foldlM (p.attempt out body) w with
  | .error left => left
  | .ok w' => (.error (.provider "max retries exceeded"), w')

/-- `AnthropicProvider::chat`. -/
def chat (p : AnthropicProvider) (out : Outside ω) : Provider (Wire ω) := fun req w =>
  match p.buildRequestBody req with
  | .error message => (.error (.provider message), ⟨w.world, w.log ++ [.panicked message]⟩)
  | .ok body =>
    let sent := p.sendWithRetry out body w
    (sent.1.map fun respBody => p.parseResponse out respBody (p.modelOf req), sent.2)

/-! ### What a request leaves on the wire -/

/-- An answer that is worth another attempt. -/
def retriable : Except LLMError (ℕ × Json) → Bool
  | .ok (status, _) => isTransient status
  | .error _ => false

/-- What an answer that decides comes to. -/
def verdict (out : Outside ω) : Except LLMError (ℕ × Json) → Except LLMError Json
  | .error e => .error e
  | .ok (status, body) =>
    if status = 200 then .ok body
    else if status = 400 then .error (.invalidRequest (out.toText body))
    else if status = 401 ∨ status = 403 then .error (.authError (out.toText body))
    else if status = 429 then .error (.rateLimited 0)
    else .error (httpError out status body)

/-- Pauses from the `n`-th attempt on: each at least doubles the base, with less than the base
added to it. -/
structure Sound (p : AnthropicProvider) (x : Exchange) : Prop where
  passed_le : x.passed.length ≤ p.maxRetries
  passed_transient : ∀ a ∈ x.passed, isTransient a.1.1 = true
  delays : ∀ n a, x.passed[n]? = some a → p.retryBaseDelayMs * 2 ^ n ≤ a.2 ∧
    a.2 < p.retryBaseDelayMs * 2 ^ n + p.retryBaseDelayMs
  final : retriable x.answer = true → x.passed.length = p.maxRetries

/-- Sending as a call that is retried. -/
def policy (p : AnthropicProvider) (out : Outside ω) (body : Json) :
    Retry.Policy (Wire ω) (Except LLMError (ℕ × Json)) :=
  ⟨p.maxRetries, sendOnce out body, retriable, p.pause out⟩

/-- A transient answer is passed over while there are retries left. -/
theorem onAnswer_of_again {p : AnthropicProvider} {out : Outside ω} {n : ℕ} {w : Wire ω}
    {answer : Except LLMError (ℕ × Json)} (hretry : retriable answer = true)
    (hn : n < p.maxRetries) : p.onAnswer out n w answer = .ok (p.pause out n w) := by
  rcases answer with e | ⟨status, respBody⟩
  · cases hretry
  have htransient : isTransient status = true := hretry
  have hstatus : status = 429 ∨ status = 500 ∨ status = 502 ∨ status = 503 ∨ status = 529 := by
    simpa [isTransient] using htransient
  rw [onAnswer, if_neg (by omega), if_neg (by omega), if_neg (by omega), if_pos htransient,
    if_neg (Nat.not_le.mpr hn)]

/-- Any other answer decides. -/
theorem onAnswer_of_final {p : AnthropicProvider} {out : Outside ω} {n : ℕ} {w : Wire ω}
    {answer : Except LLMError (ℕ × Json)} (h : ¬ (retriable answer = true ∧ n < p.maxRetries)) :
    p.onAnswer out n w answer = .error (verdict out answer, w) := by
  rcases answer with e | ⟨status, respBody⟩
  · rfl
  rw [onAnswer, verdict]
  by_cases htransient : isTransient status = true
  · have hn : n ≥ p.maxRetries := Nat.not_lt.mp fun hlt => h ⟨htransient, hlt⟩
    rw [if_pos htransient, if_pos hn]
    split_ifs <;> rfl
  · have h429 : status ≠ 429 := by
      rintro rfl
      exact htransient (by decide)
    rw [if_neg htransient, if_neg h429]
    split_ifs <;> rfl

theorem attempt_eq (p : AnthropicProvider) (out : Outside ω) (body : Json) (w : Wire ω) (n : ℕ) :
    p.attempt out body w n = ((p.policy out body).attempt w n).mapError
      fun left => (verdict out left.1, left.2) := by
  rw [attempt]
  by_cases hagain : retriable (sendOnce out body w).1 = true ∧ n < p.maxRetries
  · rw [onAnswer_of_again hagain.1 hagain.2, (p.policy out body).attempt_of_again hagain.1 hagain.2]
    rfl
  · rw [onAnswer_of_final hagain, (p.policy out body).attempt_of_final hagain]
    rfl

/-- The answers passed over by that many retries. -/
theorem log_of_waited {p : AnthropicProvider} {out : Outside ω} {body : Json} {n : ℕ}
    {w w' : Wire ω} (h : Retry.Waited (p.policy out body) n w w') :
    ∃ passed : List ((ℕ × Json) × ℕ), passed.length = n ∧
      w'.log = w.log ++ passed.flatMap (passedEvents body) ∧
      (∀ a ∈ passed, isTransient a.1.1 = true) ∧
      ∀ k a, passed[k]? = some a → p.retryBaseDelayMs * 2 ^ k ≤ a.2 ∧
        a.2 < p.retryBaseDelayMs * 2 ^ k + p.retryBaseDelayMs := by
  induction h with
  | none => exact ⟨[], rfl, (List.append_nil _).symm, by simp, by simp⟩
  | @again n w w' before transient ih =>
    obtain ⟨passed, hlength, hlog, htransient, hdelays⟩ := ih
    rcases hanswer : (out.send body w'.world).1 with e | answer
    · have hfalse : retriable (out.send body w'.world).1 = true := transient
      rw [hanswer] at hfalse
      cases hfalse
    have hnew : isTransient answer.1 = true := by
      have htrue : retriable (out.send body w'.world).1 = true := transient
      rwa [hanswer] at htrue
    let ms := p.delay out n (out.send body w'.world).2
    refine ⟨passed ++ [(answer, ms)], ?_, ?_, ?_, ?_⟩
    · rw [List.length_append, hlength]
      rfl
    · change w'.log ++ [.sent body (out.send body w'.world).1] ++ [.slept ms] = _
      rw [hlog, hanswer, List.flatMap_append, List.flatMap_singleton, List.append_assoc,
        List.append_assoc]
      rfl
    · intro a ha
      rcases List.mem_append.mp ha with ha | ha
      · exact htransient a ha
      · rw [List.mem_singleton.mp ha]
        exact hnew
    · intro k a hk
      rcases Nat.lt_or_ge k passed.length with hlt | hge
      · rw [List.getElem?_append_left hlt] at hk
        exact hdelays k a hk
      · rw [List.getElem?_append_right hge] at hk
        obtain ⟨hzero, ha⟩ := List.getElem?_eq_some_iff.mp hk
        rw [List.length_singleton] at hzero
        obtain rfl : k = n := by omega
        have hms : a.2 = ms := by
          rw [← ha]
          simp
        rw [hms]
        exact ⟨Nat.le_add_right _ _,
          Nat.add_lt_add_left (Nat.mod_lt _ p.base_pos) _⟩

/-- **A request on the wire.** Transient answers, then the one that decides. -/
theorem sendWithRetry_exchange (p : AnthropicProvider) (out : Outside ω) (body : Json)
    (w : Wire ω) :
    ∃ x : Exchange, x.body = body ∧ p.Sound x ∧
      (p.sendWithRetry out body w).2.log = w.log ++ x.events ∧
      (p.sendWithRetry out body w).1 = verdict out x.answer := by
  obtain ⟨n, w', hwaited, hle, hrun, hfinal⟩ := Retry.run_eq_call (p.policy out body) w
  obtain ⟨passed, hlength, hlog, htransient, hdelays⟩ := log_of_waited hwaited
  have hattempt : p.attempt out body = fun w n => ((p.policy out body).attempt w n).mapError
      fun left => (verdict out left.1, left.2) := by
    funext w n
    exact p.attempt_eq out body w n
  have hsend : p.sendWithRetry out body w =
      (verdict out (sendOnce out body w').1, (sendOnce out body w').2) := by
    have hfold : (List.range (p.maxRetries + 1)).foldlM (p.attempt out body) w =
        .error (verdict out (sendOnce out body w').1, (sendOnce out body w').2) := by
      rw [hattempt, Retry.foldlM_mapError]
      exact congrArg (Except.mapError _) hrun
    rw [sendWithRetry, hfold]
  refine ⟨⟨body, passed, (sendOnce out body w').1⟩, rfl, ⟨?_, htransient, hdelays, ?_⟩, ?_, ?_⟩
  · exact hlength.trans_le hle
  · exact fun hretriable => hlength.trans (hfinal hretriable)
  · rw [hsend]
    change w'.log ++ _ = _
    rw [hlog, Exchange.events, List.append_assoc]
    rfl
  · rw [hsend]

end AnthropicProvider

/-! ## An agent over the provider -/

/-- The answer to the chat of an event. -/
def AgentEvent.chatAnswer : AgentEvent → Option (Except LLMError ChatResponse)
  | .chatted _ result => some result
  | .executed _ _ _ => none

namespace AgentNode

variable {ω : Type}

/-- The agent with the provider in place of its own. Its tools and clocks do not see the log. -/
def overAnthropic (agent : AgentNode ω) (p : AnthropicProvider) (out : Outside ω) :
    AgentNode (Wire ω) where
  id := agent.id
  provider := p.chat out
  system := agent.system
  model := agent.model
  maxOutputTokens := agent.maxOutputTokens
  tools := agent.tools
  toolExecutor := agent.toolExecutor.map fun executor name input w =>
    ((executor name input w.world).1, ⟨(executor name input w.world).2, w.log⟩)
  maxToolCalls := agent.maxToolCalls
  toolElapsedMs := fun w => agent.toolElapsedMs w.world
  elapsedMs := fun w => agent.elapsedMs w.world

/-- The messages of a request after `turns`: the goal, and for each turn the tool the assistant
used and what it gave, under one id. -/
def dialogue (intent : IntentEnvelope) (turns : List ToolTurn) : List Json :=
  AnthropicProvider.textJson "user" intent.goal :: turns.flatMap fun t =>
    [AnthropicProvider.toolUseJson t.toolUse,
      AnthropicProvider.toolResultJson ⟨t.toolUse.id, t.output, false⟩]

/-- The body of the request after `turns`. -/
def dialogueBody (agent : AgentNode ω) (p : AnthropicProvider) (intent : IntentEnvelope)
    (turns : List ToolTurn) : Json :=
  .obj ([("model", .str (if agent.model.isEmpty then p.defaultModel else agent.model)),
      ("max_tokens",
        .num (.finite (if agent.maxOutputTokens > 0 then agent.maxOutputTokens else 1024 : ℕ))),
      ("messages", .arr (dialogue intent turns))] ++
    (if agent.system.isEmpty then [] else [("system", .str agent.system)]) ++
    (if agent.hasTools then [("tools", .arr (agent.tools.map AnthropicProvider.toolJson)),
        ("tool_choice", .obj [("type", .str "auto")])]
      else []))

/-- What the agent gets of an exchange. -/
def fromWire (agent : AgentNode ω) (p : AnthropicProvider) (out : Outside ω) (x : Exchange) :
    Except LLMError ChatResponse :=
  (AnthropicProvider.verdict out x.answer).map fun body =>
    p.parseResponse out body (if agent.model.isEmpty then p.defaultModel else agent.model)

/-- A run as the wire shows it. -/
structure Conversation (agent : AgentNode ω) (p : AnthropicProvider) (out : Outside ω)
    (intent : IntentEnvelope) (turns : List ToolTurn) (exchanges : List Exchange)
    (r : Except RuntimeError NodeOutput × AgentState (Wire ω)) : Prop where
  turns_le : turns.length ≤ agent.maxToolCalls
  asked : ∀ t ∈ turns, t.Asked
  log_eq : r.2.world.log = exchanges.flatMap Exchange.events
  sound : ∀ x ∈ exchanges, p.Sound x
  bodies : exchanges.map Exchange.body = turns.inits.map (agent.dialogueBody p intent)
  responses : (exchanges.map (agent.fromWire p out)).dropLast = turns.map fun t => .ok t.resp
  failed : ∀ x e, exchanges.getLast? = some x → agent.fromWire p out x = .error e →
    r.1 = .error (.node e.display)
  sent_le : r.2.world.log.countP WireEvent.isSent ≤ (agent.maxToolCalls + 1) * (p.maxRetries + 1)
  no_panic : ∀ message, WireEvent.panicked message ∉ r.2.world.log

variable {agent : AgentNode ω} {p : AnthropicProvider} {out : Outside ω} {intent : IntentEnvelope}

/-! ### What is sent -/

theorem role_ne_system {turns : List ToolTurn} {m : ChatMessage}
    (h : m ∈ turns.flatMap ToolTurn.messages) : m.role ≠ .system := by
  obtain ⟨t, -, hmem⟩ := List.mem_flatMap.mp h
  simp only [ToolTurn.messages, List.mem_cons, List.not_mem_nil, or_false] at hmem
  rcases hmem with rfl | rfl
  · exact fun hrole => by cases hrole
  · exact fun hrole => by cases hrole

theorem mapM_turns (turns : List ToolTurn) :
    (turns.flatMap ToolTurn.messages).mapM AnthropicProvider.mapMessage =
      .ok (turns.flatMap fun t => [AnthropicProvider.toolUseJson t.toolUse,
        AnthropicProvider.toolResultJson ⟨t.toolUse.id, t.output, false⟩]) := by
  induction turns with
  | nil => rfl
  | cons t turns ih =>
    rw [List.flatMap_cons, List.mapM_append, ih]
    rfl

theorem systemText_history (turns : List ToolTurn) :
    AnthropicProvider.systemText (agent.history intent turns) = agent.system := by
  have hnone : (turns.flatMap ToolTurn.messages).filter (fun m => decide (m.role = .system)) =
      [] := by
    rw [List.filter_eq_nil_iff]
    exact fun m hm => by simpa using role_ne_system hm
  rw [AnthropicProvider.systemText, history, List.filter_append, hnone]
  rfl

/-- What is not from the system is written message by message. -/
theorem mapM_history (turns : List ToolTurn) :
    ((agent.history intent turns).filter fun m => decide (m.role ≠ .system)).mapM
      AnthropicProvider.mapMessage = .ok (dialogue intent turns) := by
  have hall : (turns.flatMap ToolTurn.messages).filter (fun m => decide (m.role ≠ .system)) =
      turns.flatMap ToolTurn.messages := by
    rw [List.filter_eq_self]
    exact fun m hm => by simpa using role_ne_system hm
  have hrest : (agent.history intent turns).filter (fun m => decide (m.role ≠ .system)) =
      .user intent.goal :: turns.flatMap ToolTurn.messages := by
    rw [history, List.filter_append, hall]
    rfl
  rw [hrest, List.mapM_cons, mapM_turns]
  rfl

theorem hasTools_overAnthropic : (agent.overAnthropic p out).hasTools = agent.hasTools := by
  change (!agent.tools.isEmpty && (agent.toolExecutor.map _).isSome) = _
  rw [Option.isSome_map]
  rfl

/-- The request after `turns` can be written, and this is what is written. -/
theorem buildRequestBody_history (turns : List ToolTurn) :
    p.buildRequestBody ((agent.overAnthropic p out).request
        ((agent.overAnthropic p out).history intent turns)) =
      .ok (agent.dialogueBody p intent turns) := by
  have hsystem : AnthropicProvider.systemText ((agent.overAnthropic p out).request
      ((agent.overAnthropic p out).history intent turns)).messages = agent.system :=
    systemText_history turns
  have htools : ((agent.overAnthropic p out).request
      ((agent.overAnthropic p out).history intent turns)).tools =
        if agent.hasTools then agent.tools else [] := by
    rw [request, hasTools_overAnthropic]
    rfl
  rw [AnthropicProvider.buildRequestBody]
  change Except.map _ (((((agent.overAnthropic p out).history intent turns).filter
    fun m => decide (m.role ≠ .system)).mapM AnthropicProvider.mapMessage)) = _
  rw [mapM_history]
  refine congrArg Except.ok ?_
  rw [AnthropicProvider.bodyWith, hsystem, htools, dialogueBody]
  rcases hhas : agent.hasTools with _ | _
  · rfl
  · have hsome : agent.tools.isEmpty = false := by
      rw [hasTools, Bool.and_eq_true, Bool.not_eq_true'] at hhas
      exact hhas.1
    rw [if_pos rfl, hsome]
    rfl

/-! ### What a run leaves on the wire -/

/-- The log of the agent and that of the wire show the same chats. -/
structure OnWire (agent : AgentNode ω) (p : AnthropicProvider) (out : Outside ω)
    (st : AgentState (Wire ω)) (exchanges : List Exchange) : Prop where
  log_eq : st.world.log = exchanges.flatMap Exchange.events
  sound : ∀ x ∈ exchanges, p.Sound x
  bodies : exchanges.map (fun x => Except.ok x.body) =
    (st.log.filterMap AgentEvent.chatRequest).map p.buildRequestBody
  answers : exchanges.map (agent.fromWire p out) = st.log.filterMap AgentEvent.chatAnswer

/-- A chat that can be written is one exchange more. -/
theorem OnWire.chat {st : AgentState (Wire ω)} {exchanges : List Exchange} {body : Json}
    (h : OnWire agent p out st exchanges)
    (hbody : p.buildRequestBody ((agent.overAnthropic p out).request st.messages) = .ok body) :
    ∃ x, OnWire agent p out ((agent.overAnthropic p out).chat st) (exchanges ++ [x]) := by
  obtain ⟨x, hx, hsound, hlog, hresult⟩ := p.sendWithRetry_exchange out body st.world
  have hchat : p.chat out ((agent.overAnthropic p out).request st.messages) st.world =
      (agent.fromWire p out x, (p.sendWithRetry out body st.world).2) := by
    rw [AnthropicProvider.chat, hbody]
    dsimp only
    rw [hresult]
    rfl
  have hevent : ((agent.overAnthropic p out).chat st).log = st.log ++
      [.chatted ((agent.overAnthropic p out).request st.messages) (agent.fromWire p out x)] := by
    change st.log ++ [AgentEvent.chatted _ (p.chat out _ st.world).1] = _
    rw [hchat]
  refine ⟨x, ?_, ?_, ?_, ?_⟩
  · change (p.chat out _ st.world).2.log = _
    rw [hchat, List.flatMap_append, List.flatMap_singleton, ← h.log_eq]
    exact hlog
  · intro y hy
    rcases List.mem_append.mp hy with hy | hy
    · exact h.sound y hy
    · rw [List.mem_singleton.mp hy]
      exact hsound
  · rw [hevent, List.filterMap_append, List.map_append, List.map_append, h.bodies]
    change _ ++ [Except.ok x.body] = _ ++ [p.buildRequestBody _]
    rw [hbody, hx]
  · rw [hevent, List.filterMap_append, List.map_append, h.answers]
    rfl

/-- A tool leaves the wire alone. -/
theorem world_log_of_executor {executor : ToolExecutor (Wire ω)}
    (h : (agent.overAnthropic p out).toolExecutor = some executor) (name : String) (input : Json)
    (w : Wire ω) : (executor name input w).2.log = w.log := by
  obtain ⟨_, -, rfl⟩ := Option.map_eq_some_iff.mp h
  rfl

/-- **One turn on the wire.** -/
theorem OnWire.turn {st : AgentState (Wire ω)} {exchanges : List Exchange} {turn : ℕ} {w : Wire ω}
    (h : OnWire agent p out st exchanges)
    (hto : ComesTo (agent.overAnthropic p out) intent w turn st) :
    ∃ x, OnWire agent p out (stateOf ((agent.overAnthropic p out).turnStep st turn))
      (exchanges ++ [x]) := by
  obtain ⟨turns, -, -, hplayed⟩ := hto.played
  have hbody : p.buildRequestBody ((agent.overAnthropic p out).request st.messages) =
      .ok (agent.dialogueBody p intent turns) := by
    rw [hplayed.messages_eq]
    exact buildRequestBody_history turns
  obtain ⟨x, hx⟩ := h.chat hbody
  refine ⟨x, ?_⟩
  obtain ⟨resp, toolUse, executor, -, hasks, hlog, hworld⟩ | ⟨-, hlog, hworld⟩ :=
    ((agent.overAnthropic p out).turnStep_cases st turn).effect
  · refine ⟨?_, hx.sound, ?_, ?_⟩
    · rw [hworld, world_log_of_executor hasks.present]
      exact hx.log_eq
    · rw [hlog, List.filterMap_append, hx.bodies]
      exact (congrArg _ (List.append_nil _)).symm
    · rw [hlog, List.filterMap_append, hx.answers]
      exact (List.append_nil _).symm
  · refine ⟨?_, hx.sound, ?_, ?_⟩
    · rw [hworld]
      exact hx.log_eq
    · rw [hlog]
      exact hx.bodies
    · rw [hlog]
      exact hx.answers

theorem exists_onWire (agent : AgentNode ω) (p : AnthropicProvider) (out : Outside ω)
    (intent : IntentEnvelope) (w : ω) :
    ∃ exchanges, OnWire agent p out ((agent.overAnthropic p out).run intent ⟨w, []⟩).2
      exchanges := by
  refine run_induction (I := fun st => ∃ exchanges, OnWire agent p out st exchanges)
    ⟨[], rfl, fun _ hx => absurd hx List.not_mem_nil, rfl, rfl⟩ ?_
  rintro turn st hto ⟨exchanges, h⟩
  obtain ⟨x, hx⟩ := h.turn hto
  exact ⟨exchanges ++ [x], hx⟩

/-- The requests of a run that was left after `turns`. -/
theorem left_chats {agent : AgentNode ω} {intent : IntentEnvelope} {turns : List ToolTurn}
    {st : AgentState ω} (hplayed : Played agent intent turns st) (turn : ℕ) :
    (stateOf (agent.turnStep st turn)).log.filterMap AgentEvent.chatRequest =
        turns.inits.map (fun before => agent.request (agent.history intent before)) ∧
      (stateOf (agent.turnStep st turn)).log.filterMap AgentEvent.chatAnswer =
        turns.map (fun t => Except.ok t.resp) ++ [agent.reply st] := by
  have hchat : (agent.chat st).log.filterMap AgentEvent.chatRequest =
        turns.inits.map (fun before => agent.request (agent.history intent before)) ∧
      (agent.chat st).log.filterMap AgentEvent.chatAnswer =
        turns.map (fun t => Except.ok t.resp) ++ [agent.reply st] := by
    have hlog : (agent.chat st).log = agent.callsAfter intent [] turns ++
        [.chatted (agent.request (agent.history intent turns)) (agent.reply st)] := by
      rw [← hplayed.log_eq, ← hplayed.messages_eq]
      rfl
    rw [hlog, List.filterMap_append, List.filterMap_append]
    refine ⟨?_, ?_⟩
    · rw [← chatRequests_calls turns ⟨"", 0, 0, 0, "", .endTurn, none⟩, calls,
        List.filterMap_append]
      rfl
    · rw [filterMap_callsAfter fun _ _ => rfl]
      rfl
  obtain ⟨_, _, _, -, -, hlog, -⟩ | ⟨-, hlog, -⟩ := (agent.turnStep_cases st turn).effect
  · rw [hlog, List.filterMap_append, List.filterMap_append, hchat.1, hchat.2]
    exact ⟨List.append_nil _, List.append_nil _⟩
  · rw [hlog]
    exact hchat

/-- As many requests as answers passed over, and one. -/
theorem countP_events (x : Exchange) : x.events.countP WireEvent.isSent = x.passed.length + 1 := by
  rw [Exchange.events, List.countP_append]
  refine congrArg (· + 1) ?_
  induction x.passed with
  | nil => rfl
  | cons a passed ih =>
    rw [List.flatMap_cons, List.countP_append, ih, List.length_cons, Nat.add_comm]
    rfl

theorem countP_flatMap_le {exchanges : List Exchange} {max : ℕ}
    (h : ∀ x ∈ exchanges, x.passed.length ≤ max) :
    (exchanges.flatMap Exchange.events).countP WireEvent.isSent ≤
      exchanges.length * (max + 1) := by
  induction exchanges with
  | nil => exact Nat.zero_le _
  | cons x exchanges ih =>
    have hx := h x List.mem_cons_self
    have hrest := ih fun y hy => h y (List.mem_cons_of_mem _ hy)
    rw [List.flatMap_cons, List.countP_append, countP_events, List.length_cons, Nat.succ_mul]
    omega

theorem not_mem_events (x : Exchange) (message : String) :
    WireEvent.panicked message ∉ x.events := by
  rw [Exchange.events, List.mem_append, List.mem_flatMap]
  rintro (⟨a, -, ha⟩ | ha)
  · simp [passedEvents] at ha
  · simp at ha

/-- **The conversation.** In every run, however it ends, each chat is one body sent until it is
answered: it carries the goal and the tools used so far, each with its result. -/
theorem anthropic_run (agent : AgentNode ω) (p : AnthropicProvider) (out : Outside ω)
    (intent : IntentEnvelope) (w : ω) :
    ∃ turns exchanges, Conversation agent p out intent turns exchanges
      ((agent.overAnthropic p out).run intent ⟨w, []⟩) := by
  obtain ⟨exchanges, hwire⟩ := exists_onWire agent p out intent w
  obtain ⟨turn, st, hto, hleft⟩ := (agent.overAnthropic p out).loop_cases intent ⟨w, []⟩
  obtain ⟨turns, hlength, hle, hplayed⟩ := hto.played
  obtain ⟨hrequests, hanswers⟩ := left_chats hplayed turn
  rw [hleft] at hrequests hanswers
  have hbodies : exchanges.map Exchange.body = turns.inits.map (agent.dialogueBody p intent) := by
    have hok : exchanges.map (fun x => (Except.ok x.body : Except String Json)) =
        turns.inits.map fun before => Except.ok (agent.dialogueBody p intent before) := by
      refine (hwire.bodies.trans (congrArg _ hrequests)).trans ?_
      rw [List.map_map]
      exact List.map_congr_left fun before _ => buildRequestBody_history before
    have hinj : Function.Injective (Except.ok : Json → Except String Json) :=
      fun _ _ h => Except.ok.inj h
    refine List.map_injective_iff.mpr hinj ?_
    rw [List.map_map, List.map_map]
    exact hok
  have hreceived : exchanges.map (agent.fromWire p out) =
      turns.map (fun t => Except.ok t.resp) ++ [(agent.overAnthropic p out).reply st] :=
    hwire.answers.trans hanswers
  have hcount : exchanges.length = turns.length + 1 := by
    rw [← List.length_map (agent.fromWire p out), hreceived, List.length_append,
      List.length_map]
    rfl
  refine ⟨turns, exchanges, hlength.trans_le hle, hplayed.asked, hwire.log_eq, hwire.sound,
    hbodies, ?_, ?_, ?_, ?_⟩
  · rw [hreceived, List.dropLast_concat]
  · intro x e hx he
    have hlast : (agent.overAnthropic p out).reply st = .error e := by
      have hget := congrArg List.getLast? hreceived
      rw [List.getLast?_map, hx, List.getLast?_concat] at hget
      exact (Option.some.inj hget).symm.trans he
    have hcases := (agent.overAnthropic p out).turnStep_cases st turn
    rw [hleft] at hcases
    rw [run]
    generalize (agent.overAnthropic p out).loop intent ⟨w, []⟩ = left at hcases
    cases hcases with
    | chatFailed hreply =>
      cases hlast.symm.trans hreply
      rfl
    | finished hreply => cases hlast.symm.trans hreply
    | exhausted hreply => cases hlast.symm.trans hreply
    | toolFailed hreply => cases hlast.symm.trans hreply
  · rw [hwire.log_eq]
    refine (countP_flatMap_le fun x hx => (hwire.sound x hx).passed_le).trans ?_
    rw [hcount, hlength]
    exact Nat.mul_le_mul_right _ (Nat.succ_le_succ hle)
  · intro message hmem
    rw [hwire.log_eq, List.mem_flatMap] at hmem
    obtain ⟨x, -, hx⟩ := hmem
    exact not_mem_events x message hx

end AgentNode

end Aaf
