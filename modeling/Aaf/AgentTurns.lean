import Aaf.Spend
import Mathlib.Data.List.Infix

/-!
# The turns of an agent

What the loop of `AgentNode::run` did when the run succeeds: a number of turns that used
a tool (`ToolTurn`), and one last response. The log, the histories that were sent, the
recorded tool calls, the tokens and the reported stop reason are all read off these
(`run_transcript`).

The loop keeps one invariant, `Played`: its four variables and the log are those of the
turns so far.
-/

namespace Aaf

/-! ## Turns that used a tool -/

/-- A turn that used a tool: the response, the call it asks for, and what the tool gave. -/
structure ToolTurn where
  resp : ChatResponse
  toolUse : ToolUseBlock
  output : String
  elapsedMs : ℕ

namespace ToolTurn

/-- What the turn adds to the conversation. -/
def messages (t : ToolTurn) : List ChatMessage :=
  [.toolUseMsg t.toolUse, .toolResultMsg ⟨t.toolUse.id, t.output, false⟩]

/-- What the turn records. -/
def record (t : ToolTurn) : ToolCallRecord :=
  ⟨t.toolUse.name, t.toolUse.input, t.output, t.elapsedMs⟩

/-- What the turn executes. -/
def execution (t : ToolTurn) : String × Json × Except RuntimeError String :=
  (t.toolUse.name, t.toolUse.input, .ok t.output)

/-- The response asks for the tool that was used. -/
def Asked (t : ToolTurn) : Prop := t.resp.stopReason = .toolUse ∧ t.resp.toolUse = some t.toolUse

end ToolTurn

/-- The tokens of a response. -/
def ChatResponse.tokens (resp : ChatResponse) : ℕ := resp.tokensIn + resp.tokensOut

namespace AgentEvent

/-- The request of a chat. -/
def chatRequest : AgentEvent → Option ChatRequest
  | .chatted req _ => some req
  | .executed _ _ _ => none

/-- The call of a tool, with its result. -/
def execution : AgentEvent → Option (String × Json × Except RuntimeError String)
  | .chatted _ _ => none
  | .executed name input result => some (name, input, result)

end AgentEvent

/-- The output says `reason` is why the agent stopped. -/
def NodeOutput.Reports (out : NodeOutput) (reason : StopReason) : Prop :=
  ∃ content toolCalls, out.data = .obj [("content", content),
    ("stop_reason", .str reason.debug), ("tool_calls", toolCalls)]

theorem StopReason.debug_injective : Function.Injective StopReason.debug := by
  intro r r' h
  cases r <;> cases r' <;> first | rfl | exact absurd h (by decide)

namespace AgentNode

variable {ω : Type} {agent : AgentNode ω} {intent : IntentEnvelope} {w : ω}

/-- The conversation after `turns`. -/
def history (agent : AgentNode ω) (intent : IntentEnvelope) (turns : List ToolTurn) :
    List ChatMessage :=
  [.system agent.system, .user intent.goal] ++ turns.flatMap ToolTurn.messages

/-- The calls of a turn made after `before`. -/
def callsOf (agent : AgentNode ω) (intent : IntentEnvelope) (before : List ToolTurn)
    (t : ToolTurn) : List AgentEvent :=
  [.chatted (agent.request (agent.history intent before)) (.ok t.resp),
    .executed t.toolUse.name t.toolUse.input (.ok t.output)]

/-- The calls of `turns`, made after `before`. -/
def callsAfter (agent : AgentNode ω) (intent : IntentEnvelope) :
    List ToolTurn → List ToolTurn → List AgentEvent
  | _, [] => []
  | before, t :: turns =>
    agent.callsOf intent before t ++ callsAfter agent intent (before ++ [t]) turns

theorem callsAfter_append (before turns turns' : List ToolTurn) :
    agent.callsAfter intent before (turns ++ turns') =
      agent.callsAfter intent before turns ++ agent.callsAfter intent (before ++ turns) turns' := by
  induction turns generalizing before with
  | nil => rw [List.nil_append, callsAfter, List.nil_append, List.append_nil]
  | cons t turns ih =>
    rw [List.cons_append, callsAfter, callsAfter, ih, ← List.append_assoc, List.append_assoc before]
    rfl

theorem history_concat (turns : List ToolTurn) (t : ToolTurn) :
    agent.history intent (turns ++ [t]) = agent.history intent turns ++ t.messages := by
  rw [history, history, List.flatMap_append, List.flatMap_singleton, List.append_assoc]

/-! ## The invariant of the loop -/

/-- The variables of the loop are those of the turns so far. -/
structure Played (agent : AgentNode ω) (intent : IntentEnvelope) (turns : List ToolTurn)
    (st : AgentState ω) : Prop where
  asked : ∀ t ∈ turns, t.Asked
  messages_eq : st.messages = agent.history intent turns
  toolCalls_eq : st.toolCalls = turns.map ToolTurn.record
  tokens_eq : st.totalTokens = (turns.map fun t => t.resp.tokens).sum
  log_eq : st.log = agent.callsAfter intent [] turns

theorem Played.start : Played agent intent [] (agent.start intent w) where
  asked := fun _ ht => absurd ht List.not_mem_nil
  messages_eq := rfl
  toolCalls_eq := rfl
  tokens_eq := rfl
  log_eq := rfl

/-- What the loop counts and logs of a response. -/
theorem Played.count {turns : List ToolTurn} {st : AgentState ω} {resp : ChatResponse}
    (h : Played agent intent turns st) (hreply : agent.reply st = .ok resp) :
    (AgentNode.count (agent.chat st) resp).totalTokens =
        (turns.map fun t => t.resp.tokens).sum + resp.tokens ∧
      (AgentNode.count (agent.chat st) resp).log = agent.callsAfter intent [] turns ++
        [.chatted (agent.request (agent.history intent turns)) (.ok resp)] := by
  refine ⟨?_, ?_⟩
  · change st.totalTokens + _ = _
    rw [h.tokens_eq]
    rfl
  · change (agent.chat st).log = _
    rw [chat_log hreply, h.log_eq, h.messages_eq]

/-- A turn that goes on used one more tool. -/
theorem Played.next {turns : List ToolTurn} {st st' : AgentState ω} {turn : ℕ}
    (h : Played agent intent turns st) (hturn : agent.turnStep st turn = .ok st') :
    ∃ t, Played agent intent (turns ++ [t]) st' := by
  have hcases := agent.turnStep_cases st turn
  rw [hturn] at hcases
  cases hcases with
  | @toolUsed resp toolUse executor output hreply hasks htool =>
    let world := (executor toolUse.name toolUse.input (agent.chat st).world).2
    obtain ⟨htokens, hlog⟩ := h.count hreply
    refine ⟨⟨resp, toolUse, output, agent.toolElapsedMs world⟩, ?_, ?_, ?_, ?_, ?_⟩
    · intro t ht
      rcases List.mem_append.mp ht with ht | ht
      · exact h.asked t ht
      · rw [List.mem_singleton.mp ht]
        exact ⟨hasks.reason, hasks.block⟩
    · rw [history_concat, ← h.messages_eq]
      rfl
    · rw [List.map_append, ← h.toolCalls_eq]
      rfl
    · rw [List.map_append, List.sum_append, List.map_singleton, List.sum_singleton]
      exact htokens
    · have htool' : (executor toolUse.name toolUse.input
          (AgentNode.count (agent.chat st) resp).world).1 = .ok output := htool
      rw [callsAfter_append, List.nil_append, callsAfter, callsAfter, List.append_nil, callsOf]
      change (AgentNode.count (agent.chat st) resp).log ++ [.executed toolUse.name toolUse.input
        (executor toolUse.name toolUse.input (AgentNode.count (agent.chat st) resp).world).1] = _
      rw [hlog, htool', List.append_assoc]
      rfl

/-- The loop comes to a turn after as many turns that used a tool. -/
theorem ComesTo.played {turn : ℕ} {st : AgentState ω} (h : ComesTo agent intent w turn st) :
    ∃ turns, turns.length = turn ∧ turn ≤ agent.maxToolCalls ∧ Played agent intent turns st := by
  obtain ⟨pre, post, hsplit, hpre⟩ := h
  obtain ⟨turns, hlength, hplayed⟩ : ∃ turns : List ToolTurn, turns.length = pre.length ∧
      Played agent intent turns st := by
    have hstart : ∃ turns : List ToolTurn, turns.length = ([] : List ℕ).length ∧
        Played agent intent turns (agent.start intent w) := ⟨[], rfl, .start⟩
    refine Loop.foldlM_ok (I := fun pre st => ∃ turns : List ToolTurn,
      turns.length = pre.length ∧ Played agent intent turns st) hstart ?_ hpre
    rintro pre turn st st' ⟨turns, hlength, hplayed⟩ hturn
    obtain ⟨t, ht⟩ := hplayed.next hturn
    exact ⟨turns ++ [t], by rw [List.length_append, List.length_append, hlength]; rfl, ht⟩
  have hget : (List.range (agent.maxToolCalls + 1))[pre.length]? = some turn := by
    rw [hsplit]
    simp
  obtain ⟨hlt, hturn⟩ := List.getElem?_eq_some_iff.mp hget
  rw [List.getElem_range] at hturn
  rw [List.length_range] at hlt
  exact ⟨turns, by rw [hlength, hturn], by omega, hplayed⟩

/-! ## How a run succeeds -/

/-- The reason reported for a loop that ends with `resp` in `turn`. -/
def finalReason (agent : AgentNode ω) (turn : ℕ) (resp : ChatResponse) : StopReason :=
  if resp.stopReason = .toolUse ∧ agent.maxToolCalls ≤ turn then .budgetExhausted
  else resp.stopReason

/-- A turn that ends the loop without an error ends it with its response. -/
theorem turnStep_left {st : AgentState ω} {turn : ℕ} {b : AgentBreak ω} {content : String}
    (h : agent.turnStep st turn = .error b) (hresult : b.result = .ok content) :
    ∃ resp, agent.reply st = .ok resp ∧ content = resp.content ∧
      b.state = { count (agent.chat st) resp with
        finalStopReason := agent.finalReason turn resp } := by
  rw [turnStep] at h
  rcases hreply : (agent.provider (agent.request st.messages) st.world).1 with e | resp
  · rw [hreply] at h
    cases h
    cases hresult
  rw [hreply] at h
  dsimp only at h
  rw [answer] at h
  refine ⟨resp, hreply, ?_⟩
  by_cases hreason : resp.stopReason = .toolUse
  · rw [if_neg (not_not.mpr hreason)] at h
    by_cases hturn : agent.maxToolCalls ≤ turn
    · rw [if_pos hturn] at h
      cases h
      cases hresult
      exact ⟨rfl, by rw [finalReason, if_pos ⟨hreason, hturn⟩]⟩
    rw [if_neg hturn] at h
    have hfinal : agent.finalReason turn resp = resp.stopReason :=
      if_neg fun hand => hturn hand.2
    rw [hfinal]
    split at h
    · -- the tool is executed: only its error leaves the loop
      rw [useTool] at h
      split at h
      · cases h
        cases hresult
      · cases h
    · cases h
      cases hresult
      exact ⟨rfl, rfl⟩
  · rw [if_pos hreason] at h
    cases h
    cases hresult
    exact ⟨rfl, by rw [finalReason, if_neg fun hand => hreason hand.1]; rfl⟩

/-- A run that succeeds: turns that used a tool, and a response that ends the loop. -/
theorem run_ok {out : NodeOutput} (h : (agent.run intent w).1 = .ok out) :
    ∃ turns st last, turns.length ≤ agent.maxToolCalls ∧ Played agent intent turns st ∧
      agent.reply st = .ok last ∧
      (agent.run intent w).2 = { count (agent.chat st) last with
        finalStopReason := agent.finalReason turns.length last } ∧
      out = agent.output last.content (agent.run intent w).2 := by
  obtain ⟨turn, st, hto, hleft⟩ := agent.loop_cases intent w
  obtain ⟨turns, hlength, hle, hplayed⟩ := hto.played
  rw [run] at h
  rcases hresult : (agent.loop intent w).result with e | content
  · rw [hresult] at h
    cases h
  · rw [hresult] at h
    obtain ⟨last, hreply, rfl, hstate⟩ := turnStep_left hleft hresult
    rw [← hlength] at hle hstate
    exact ⟨turns, st, last, hle, hplayed, hreply, hstate, (Except.ok.inj h).symm⟩

/-! ## Reading the log -/

/-- The calls of a run: those of its turns, and the chat that ended it. -/
def calls (agent : AgentNode ω) (intent : IntentEnvelope) (turns : List ToolTurn)
    (last : ChatResponse) : List AgentEvent :=
  agent.callsAfter intent [] turns ++
    [.chatted (agent.request (agent.history intent turns)) (.ok last)]

/-- The k-th request has the conversation of the first k - 1 turns. -/
theorem chatRequests_calls (turns : List ToolTurn) (last : ChatResponse) :
    (agent.calls intent turns last).filterMap AgentEvent.chatRequest =
      turns.inits.map fun before => agent.request (agent.history intent before) := by
  have hafter : ∀ turns before : List ToolTurn,
      (agent.callsAfter intent before turns ++
        [AgentEvent.chatted (agent.request (agent.history intent (before ++ turns)))
          (.ok last)]).filterMap AgentEvent.chatRequest =
      turns.inits.map fun more => agent.request (agent.history intent (before ++ more)) := by
    intro turns
    induction turns with
    | nil => exact fun _ => rfl
    | cons t turns ih =>
      intro before
      have hrest := ih (before ++ [t])
      rw [List.append_assoc] at hrest
      rw [callsAfter, List.append_assoc, List.filterMap_append, List.inits_cons, List.map_cons,
        List.map_map, List.append_nil]
      refine congrArg (agent.request (agent.history intent before) :: ·) (hrest.trans ?_)
      refine List.map_congr_left fun more _ => ?_
      rw [List.append_assoc]
      rfl
  exact hafter turns []

/-- What is read off the calls of each turn, off the calls of all. -/
theorem filterMap_callsAfter {β : Type} {f : AgentEvent → Option β} {g : ToolTurn → β}
    (hturn : ∀ before t, (agent.callsOf intent before t).filterMap f = [g t]) :
    ∀ turns before : List ToolTurn,
      (agent.callsAfter intent before turns).filterMap f = turns.map g := by
  intro turns
  induction turns with
  | nil => exact fun _ => rfl
  | cons t turns ih =>
    intro before
    rw [callsAfter, List.filterMap_append, hturn, ih, List.map_cons, List.singleton_append]

theorem responses_calls (turns : List ToolTurn) (last : ChatResponse) :
    (agent.calls intent turns last).filterMap AgentEvent.response =
      turns.map ToolTurn.resp ++ [last] := by
  rw [calls, List.filterMap_append, filterMap_callsAfter fun _ _ => rfl]
  rfl

theorem executions_calls (turns : List ToolTurn) (last : ChatResponse) :
    (agent.calls intent turns last).filterMap AgentEvent.execution =
      turns.map ToolTurn.execution := by
  rw [calls, List.filterMap_append, filterMap_callsAfter fun _ _ => rfl]
  exact List.append_nil _

/-! ## The transcript -/

/-- The response to the last chat the agent may make still asks for a tool. -/
def AskedToTheLast (agent : AgentNode ω) (log : List AgentEvent) : Prop :=
  ∃ resp, (log.filterMap AgentEvent.response)[agent.maxToolCalls]? = some resp ∧
    resp.stopReason = .toolUse

/-- `turns` used a tool, `last` ended the run, and log and output are made of these. -/
structure Transcript (agent : AgentNode ω) (intent : IntentEnvelope) (turns : List ToolTurn)
    (last : ChatResponse) (log : List AgentEvent) (out : NodeOutput) : Prop where
  asked : ∀ t ∈ turns, t.Asked
  log_eq : log = agent.calls intent turns last
  chats_le : (log.filterMap AgentEvent.chatRequest).length ≤ agent.maxToolCalls + 1
  executions_le : (log.filterMap AgentEvent.execution).length ≤ agent.maxToolCalls
  requests_eq : log.filterMap AgentEvent.chatRequest =
    turns.inits.map fun before => agent.request (agent.history intent before)
  responses_eq : log.filterMap AgentEvent.response = turns.map ToolTurn.resp ++ [last]
  executions_eq : log.filterMap AgentEvent.execution = turns.map ToolTurn.execution
  data_eq : ∃ reason : StopReason, out.data = .obj [("content", .str last.content),
    ("stop_reason", .str reason.debug),
    ("tool_calls", .arr (turns.map fun t => t.record.toJson))]
  tokens_eq : out.tokens = ((log.filterMap AgentEvent.response).map ChatResponse.tokens).sum
  exhausted_iff : out.Reports .budgetExhausted ↔
    agent.AskedToTheLast log ∨ last.stopReason = .budgetExhausted

/-- What an output reports. -/
theorem output_reports {content : String} {st : AgentState ω} {reason : StopReason} :
    (agent.output content st).Reports reason ↔ st.finalStopReason = reason := by
  constructor
  · rintro ⟨content', toolCalls, hdata⟩
    rw [output] at hdata
    injection hdata with hfields
    injection hfields with _ hfields
    injection hfields with hreason _
    injection hreason with _ hreason
    injection hreason with hreason
    exact StopReason.debug_injective hreason
  · rintro rfl
    exact ⟨_, _, rfl⟩

/-- When the final reason is that the budget is exhausted. -/
theorem finalReason_eq_budgetExhausted_iff {turn : ℕ} {resp : ChatResponse} :
    agent.finalReason turn resp = .budgetExhausted ↔
      (resp.stopReason = .toolUse ∧ agent.maxToolCalls ≤ turn) ∨
        resp.stopReason = .budgetExhausted := by
  rw [finalReason]
  by_cases h : resp.stopReason = .toolUse ∧ agent.maxToolCalls ≤ turn
  · rw [if_pos h]
    exact iff_of_true rfl (Or.inl h)
  · rw [if_neg h, or_iff_right h]

/-- The last of at most that many responses is the one to the last chat permitted exactly
when there are as many turns before it. -/
theorem askedToTheLast_iff {turns : List ToolTurn} {last : ChatResponse}
    {log : List AgentEvent} (hle : turns.length ≤ agent.maxToolCalls)
    (hlog : log.filterMap AgentEvent.response = turns.map ToolTurn.resp ++ [last]) :
    agent.AskedToTheLast log ↔
      last.stopReason = .toolUse ∧ agent.maxToolCalls ≤ turns.length := by
  rw [AskedToTheLast, hlog]
  rcases Nat.lt_or_eq_of_le hle with hlt | heq
  · rw [List.getElem?_eq_none (by simpa using Nat.succ_le_of_lt hlt)]
    refine iff_of_false ?_ fun h => Nat.not_le.mpr hlt h.2
    rintro ⟨_, hnone, -⟩
    cases hnone
  · have hget : (turns.map ToolTurn.resp ++ [last])[agent.maxToolCalls]? = some last := by
      rw [← heq]
      simp
    rw [hget]
    constructor
    · rintro ⟨_, hsome, hreason⟩
      cases hsome
      exact ⟨hreason, heq.ge⟩
    · exact fun h => ⟨last, rfl, h.1⟩

/-- **The transcript.** A run that succeeds made at most one chat more than it may use
tools; each request had the whole conversation so far; records, tokens and stop reason are
those of the turns. -/
theorem run_transcript {out : NodeOutput} (h : (agent.run intent w).1 = .ok out) :
    ∃ turns last, Transcript agent intent turns last (agent.run intent w).2.log out := by
  obtain ⟨turns, st, last, hle, hplayed, hreply, hstate, rfl⟩ := run_ok h
  have hlog : (agent.run intent w).2.log = agent.calls intent turns last := by
    rw [hstate]
    exact (hplayed.count hreply).2
  have hresponses : (agent.run intent w).2.log.filterMap AgentEvent.response =
      turns.map ToolTurn.resp ++ [last] := by rw [hlog, responses_calls]
  refine ⟨turns, last, hplayed.asked, hlog, ?_, ?_, ?_, hresponses, ?_, ?_, ?_, ?_⟩
  · rw [hlog, chatRequests_calls, List.length_map, List.length_inits]
    exact Nat.succ_le_succ hle
  · rw [hlog, executions_calls, List.length_map]
    exact hle
  · rw [hlog, chatRequests_calls]
  · rw [hlog, executions_calls]
  · refine ⟨agent.finalReason turns.length last, ?_⟩
    rw [output, hstate]
    change Json.obj [_, _, ("tool_calls", .arr (st.toolCalls.map ToolCallRecord.toJson))] = _
    rw [hplayed.toolCalls_eq, List.map_map]
    rfl
  · rw [hresponses, List.map_append, List.map_map, List.sum_append, List.map_singleton,
      List.sum_singleton]
    change (agent.run intent w).2.totalTokens = _
    rw [hstate]
    exact (hplayed.count hreply).1
  · rw [output_reports, askedToTheLast_iff hle hresponses, hstate]
    exact finalReason_eq_budgetExhausted_iff

/-- The stock agent looks at the stock once and answers. -/
theorem stockAgent_transcript :
    ∃ out, ((stockAgent "check_stock").run Sample.intent 0).1 = .ok out ∧
      ∃ turns last, Transcript (stockAgent "check_stock") Sample.intent turns last
        ((stockAgent "check_stock").run Sample.intent 0).2.log out :=
  ⟨_, rfl, run_transcript rfl⟩

/-- An agent whose provider has no budget left itself. -/
def brokeAgent : AgentNode ℕ :=
  AgentNode.new ⟨"agent"⟩
    (fun _ chats => (.ok ⟨"", 10, 5, .finite 1, "mock", .budgetExhausted, none⟩, chats + 1))
    "help" "mock" 100 (fun _ => 0) fun _ => 0

/-- The provider's own reason is reported, although no tool was ever asked for. -/
theorem brokeAgent_reports_exhausted :
    ¬ ∀ out, (brokeAgent.run Sample.intent 0).1 = .ok out →
      (out.Reports .budgetExhausted ↔
        brokeAgent.AskedToTheLast (brokeAgent.run Sample.intent 0).2.log) := by
  intro h
  obtain ⟨_, hresp, -⟩ := (h _ rfl).mp ⟨_, _, rfl⟩
  cases hresp

end AgentNode

end Aaf
