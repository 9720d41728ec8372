import Aaf.Agent
import Aaf.ExecutorRun

/-!
# The agent's tool loop

What one turn can do (`Turn`), where the loop gets to (`ComesTo`), and how its log
grows. The loop always ends by leaving a turn: the last one allowed never asks for
another.

Nothing in the loop compares a requested tool with the tools on offer.
`onlyOffered_iff` makes that exact: the agent executes offered tools only if, and only
if, the provider never asks for another.
-/

namespace Aaf

namespace AgentNode

variable {ω : Type} {agent : AgentNode ω} {intent : IntentEnvelope} {w : ω}

/-! ## One turn -/

/-- The provider's answer in a turn. -/
def reply (agent : AgentNode ω) (st : AgentState ω) : Except LLMError ChatResponse :=
  (agent.provider (agent.request st.messages) st.world).1

/-- The response asks for a tool, in a turn that may still use one. -/
structure Asks (agent : AgentNode ω) (turn : ℕ) (resp : ChatResponse) (toolUse : ToolUseBlock)
    (executor : ToolExecutor ω) : Prop where
  reason : resp.stopReason = .toolUse
  turn_lt : turn < agent.maxToolCalls
  block : resp.toolUse = some toolUse
  present : agent.toolExecutor = some executor

/-- What a turn can do. -/
inductive Turn (agent : AgentNode ω) (st : AgentState ω) (turn : ℕ) :
    Except (AgentBreak ω) (AgentState ω) → Prop
  | chatFailed {e : LLMError} (hreply : agent.reply st = .error e) :
      Turn agent st turn (.error ⟨.error (.node e.display), agent.chat st⟩)
  | finished {resp : ChatResponse} (hreply : agent.reply st = .ok resp)
      (hquiet : ∀ toolUse executor, ¬ Asks agent turn resp toolUse executor) :
      Turn agent st turn (.error ⟨.ok resp.content, count (agent.chat st) resp⟩)
  | exhausted {resp : ChatResponse} (hreply : agent.reply st = .ok resp)
      (hturn : agent.maxToolCalls ≤ turn) :
      Turn agent st turn (.error ⟨.ok resp.content,
        { count (agent.chat st) resp with finalStopReason := .budgetExhausted }⟩)
  | toolFailed {resp : ChatResponse} {toolUse : ToolUseBlock} {executor : ToolExecutor ω}
      {e : RuntimeError} (hreply : agent.reply st = .ok resp)
      (hasks : Asks agent turn resp toolUse executor)
      (htool : (executor toolUse.name toolUse.input (agent.chat st).world).1 = .error e) :
      Turn agent st turn
        (.error ⟨.error e, callTool executor toolUse (count (agent.chat st) resp)⟩)
  | toolUsed {resp : ChatResponse} {toolUse : ToolUseBlock} {executor : ToolExecutor ω}
      {out : String} (hreply : agent.reply st = .ok resp)
      (hasks : Asks agent turn resp toolUse executor)
      (htool : (executor toolUse.name toolUse.input (agent.chat st).world).1 = .ok out) :
      Turn agent st turn (.ok (agent.recordTool toolUse out
        (callTool executor toolUse (count (agent.chat st) resp))))

theorem turnStep_cases (agent : AgentNode ω) (st : AgentState ω) (turn : ℕ) :
    Turn agent st turn (agent.turnStep st turn) := by
  rw [turnStep]
  rcases hreply : (agent.provider (agent.request st.messages) st.world).1 with e | resp
  · exact .chatFailed hreply
  dsimp only
  rw [answer]
  by_cases hreason : resp.stopReason ≠ .toolUse
  · rw [if_pos hreason]
    exact .finished hreply fun _ _ h => hreason h.reason
  rw [if_neg hreason]
  by_cases hturn : turn ≥ agent.maxToolCalls
  · rw [if_pos hturn]
    exact .exhausted hreply hturn
  rw [if_neg hturn]
  rcases hblock : resp.toolUse with _ | toolUse
  · refine .finished hreply fun _ _ h => ?_
    cases hblock.symm.trans h.block
  rcases hpresent : agent.toolExecutor with _ | executor
  · refine .finished hreply fun _ _ h => ?_
    cases hpresent.symm.trans h.present
  have hasks : Asks agent turn resp toolUse executor :=
    ⟨not_not.mp hreason, Nat.not_le.mp hturn, hblock, hpresent⟩
  dsimp only
  rw [useTool]
  rcases htool : (executor toolUse.name toolUse.input
    (count (agent.chat st) resp).world).1 with e | out
  · exact .toolFailed hreply hasks htool
  · exact .toolUsed hreply hasks htool

/-- The state a turn, or a number of turns, ends in. -/
def stateOf : Except (AgentBreak ω) (AgentState ω) → AgentState ω
  | .ok st => st
  | .error b => b.state

/-- What a turn adds to the log and does to the world: its chat, and then the tool the
response asks for, if it asks for one. -/
theorem Turn.effect {st : AgentState ω} {turn : ℕ} {r : Except (AgentBreak ω) (AgentState ω)}
    (h : Turn agent st turn r) :
    (∃ resp toolUse executor, agent.reply st = .ok resp ∧
      Asks agent turn resp toolUse executor ∧
      (stateOf r).log = (agent.chat st).log ++ [.executed toolUse.name toolUse.input
        (executor toolUse.name toolUse.input (agent.chat st).world).1] ∧
      (stateOf r).world = (executor toolUse.name toolUse.input (agent.chat st).world).2) ∨
    ((∀ resp toolUse executor, agent.reply st = .ok resp →
        ¬ Asks agent turn resp toolUse executor) ∧
      (stateOf r).log = (agent.chat st).log ∧ (stateOf r).world = (agent.chat st).world) := by
  cases h with
  | chatFailed hreply =>
    refine Or.inr ⟨fun resp _ _ hresp => ?_, rfl, rfl⟩
    cases hreply.symm.trans hresp
  | finished hreply hquiet =>
    refine Or.inr ⟨fun resp _ _ hresp => ?_, rfl, rfl⟩
    cases hreply.symm.trans hresp
    exact hquiet _ _
  | exhausted hreply hturn =>
    exact Or.inr ⟨fun _ _ _ _ hasks => Nat.not_lt.mpr hturn hasks.turn_lt, rfl, rfl⟩
  | toolFailed hreply hasks htool => exact Or.inl ⟨_, _, _, hreply, hasks, rfl, rfl⟩
  | toolUsed hreply hasks htool => exact Or.inl ⟨_, _, _, hreply, hasks, rfl, rfl⟩

/-- A turn that is asked for a tool executes it. -/
theorem effect_of_asks {st : AgentState ω} {turn : ℕ} {resp : ChatResponse}
    {toolUse : ToolUseBlock} {executor : ToolExecutor ω} (hreply : agent.reply st = .ok resp)
    (hasks : Asks agent turn resp toolUse executor) :
    (stateOf (agent.turnStep st turn)).log = (agent.chat st).log ++
        [.executed toolUse.name toolUse.input
          (executor toolUse.name toolUse.input (agent.chat st).world).1] ∧
      (stateOf (agent.turnStep st turn)).world =
        (executor toolUse.name toolUse.input (agent.chat st).world).2 := by
  rcases (agent.turnStep_cases st turn).effect with
    ⟨resp', toolUse', executor', hreply', hasks', heffect⟩ | ⟨hquiet, -⟩
  · cases hreply.symm.trans hreply'
    cases hasks.block.symm.trans hasks'.block
    cases hasks.present.symm.trans hasks'.present
    exact heffect
  · exact absurd hasks (hquiet _ _ _ hreply)

/-- A turn only adds to the log. -/
theorem Turn.log_grows {st : AgentState ω} {turn : ℕ}
    {r : Except (AgentBreak ω) (AgentState ω)} (h : Turn agent st turn r) :
    st.log <+: (stateOf r).log := by
  have hchat : st.log <+: (agent.chat st).log := List.prefix_append _ _
  obtain ⟨_, _, _, -, -, hlog, -⟩ | ⟨-, hlog, -⟩ := h.effect
  · rw [hlog]
    exact hchat.trans (List.prefix_append _ _)
  · rw [hlog]
    exact hchat

/-- A relation that every turn keeps, between where it starts and where it ends, is kept
by any number of turns. -/
theorem foldlM_rel {R : AgentState ω → AgentState ω → Prop} (hrefl : ∀ st, R st st)
    (htrans : ∀ a b c, R a b → R b c → R a c)
    (hturn : ∀ st turn, R st (stateOf (agent.turnStep st turn))) :
    ∀ (turns : List ℕ) (st : AgentState ω), R st (stateOf (turns.foldlM agent.turnStep st)) := by
  intro turns
  induction turns with
  | nil => exact fun st => hrefl st
  | cons turn turns ih =>
    intro st
    have hfirst := hturn st turn
    rw [List.foldlM_cons]
    rcases hres : agent.turnStep st turn with b | st'
    · rw [hres] at hfirst
      exact hfirst
    · rw [hres] at hfirst
      exact htrans _ _ _ hfirst (ih st')

/-! ## The loop -/

/-- The loop comes to `turn`, in state `st`. -/
def ComesTo (agent : AgentNode ω) (intent : IntentEnvelope) (w : ω) (turn : ℕ)
    (st : AgentState ω) : Prop :=
  ∃ pre post, List.range (agent.maxToolCalls + 1) = pre ++ turn :: post ∧
    pre.foldlM agent.turnStep (agent.start intent w) = .ok st

/-- What holds at the start and is kept by every turn that goes on holds wherever the
loop gets. -/
theorem ComesTo.induction {I : AgentState ω → Prop} (h₀ : I (agent.start intent w))
    (hstep : ∀ turn st st', ComesTo agent intent w turn st → I st →
      agent.turnStep st turn = .ok st' → I st')
    {turn : ℕ} {st : AgentState ω} (h : ComesTo agent intent w turn st) : I st := by
  obtain ⟨pre, post, hsplit, hpre⟩ := h
  have hinv : pre.foldlM agent.turnStep (agent.start intent w) = .ok st ∧
      ∀ post, List.range (agent.maxToolCalls + 1) = pre ++ post → I st := by
    refine Loop.foldlM_ok (I := fun pre st => pre.foldlM agent.turnStep (agent.start intent w) =
      .ok st ∧ ∀ post, List.range (agent.maxToolCalls + 1) = pre ++ post → I st)
      ⟨rfl, fun _ _ => h₀⟩ ?_ hpre
    rintro pre turn st st' ⟨hfold, hI⟩ hturn
    refine ⟨Loop.foldlM_concat_ok.mpr ⟨st, hfold, hturn⟩, fun post hpost => ?_⟩
    rw [List.append_assoc] at hpost
    exact hstep turn st st' ⟨pre, post, hpost, hfold⟩ (hI _ hpost) hturn
  exact hinv.2 _ hsplit

/-- The loop is left from one of its turns: the last one allowed cannot go on. -/
theorem loop_cases (agent : AgentNode ω) (intent : IntentEnvelope) (w : ω) :
    ∃ turn st, ComesTo agent intent w turn st ∧
      agent.turnStep st turn = .error (agent.loop intent w) := by
  rw [loop]
  rcases hfold : (List.range (agent.maxToolCalls + 1)).foldlM agent.turnStep
    (agent.start intent w) with b | st
  · obtain ⟨pre, turn, post, st, hsplit, hpre, hturn⟩ := Loop.foldlM_error_iff.mp hfold
    exact ⟨turn, st, ⟨pre, post, hsplit, hpre⟩, hturn⟩
  · rw [List.range_succ] at hfold
    obtain ⟨st', -, hlast⟩ := Loop.foldlM_concat_ok.mp hfold
    have hcases := agent.turnStep_cases st' agent.maxToolCalls
    rw [hlast] at hcases
    cases hcases with
    | toolUsed hreply hasks htool => exact absurd hasks.turn_lt (Nat.lt_irrefl _)

/-- What holds at the start and is kept by every turn the loop comes to holds at the end
of the run. -/
theorem run_induction {I : AgentState ω → Prop} (h₀ : I (agent.start intent w))
    (hstep : ∀ turn st, ComesTo agent intent w turn st → I st →
      I (stateOf (agent.turnStep st turn))) : I (agent.run intent w).2 := by
  have hreached : ∀ {turn st}, ComesTo agent intent w turn st → I st := by
    intro turn st hto
    refine hto.induction h₀ ?_
    intro turn st st' hto hI hturn
    have hnext := hstep turn st hto hI
    rw [hturn] at hnext
    exact hnext
  obtain ⟨turn, st, hto, hend⟩ := agent.loop_cases intent w
  have hlast := hstep turn st hto (hreached hto)
  rw [hend] at hlast
  exact hlast

/-- A relation that every turn keeps holds between the end of a turn the loop came to and
the end of the run. -/
theorem ComesTo.rel {R : AgentState ω → AgentState ω → Prop} (hrefl : ∀ st, R st st)
    (htrans : ∀ a b c, R a b → R b c → R a c)
    (hturn : ∀ st turn, R st (stateOf (agent.turnStep st turn)))
    {turn : ℕ} {st : AgentState ω} (h : ComesTo agent intent w turn st) :
    R (stateOf (agent.turnStep st turn)) (agent.run intent w).2 := by
  obtain ⟨pre, post, hsplit, hpre⟩ := h
  have hrun : (agent.run intent w).2 = stateOf ((List.range (agent.maxToolCalls + 1)).foldlM
      agent.turnStep (agent.start intent w)) := by
    rw [run, loop]
    rcases (List.range (agent.maxToolCalls + 1)).foldlM agent.turnStep
      (agent.start intent w) with b | st
    · rfl
    · rfl
  rw [hrun, hsplit, List.foldlM_append, hpre]
  change R _ (stateOf ((turn :: post).foldlM agent.turnStep st))
  rw [List.foldlM_cons]
  rcases agent.turnStep st turn with b | st'
  · exact hrefl _
  · exact foldlM_rel hrefl htrans hturn post st'

/-- The log of a turn the loop came to begins the log of the whole run. -/
theorem ComesTo.log_grows {turn : ℕ} {st : AgentState ω} (h : ComesTo agent intent w turn st) :
    (stateOf (agent.turnStep st turn)).log <+: (agent.run intent w).2.log :=
  h.rel (R := fun st st' => st.log <+: st'.log) (fun _ => List.prefix_refl _)
    (fun _ _ _ => List.IsPrefix.trans) fun st turn => (agent.turnStep_cases st turn).log_grows

/-! ## Offered tools -/

/-- A tool execution is of one of the agent's own tools, offered in the request whose
answer asked for it; `before` is the log before the event. -/
def Offered (agent : AgentNode ω) (before : List AgentEvent) : AgentEvent → Prop
  | .chatted _ _ => True
  | .executed name _ _ =>
    (∃ t ∈ agent.tools, t.name = name) ∧
      ∃ pre req resp, before = pre ++ [.chatted req (.ok resp)] ∧ ∃ t ∈ req.tools, t.name = name

/-- Every tool executed was offered. -/
def OnlyOffered (agent : AgentNode ω) (log : List AgentEvent) : Prop :=
  Loop.Justified (Offered agent) log

/-- Wherever the loop gets, a response that asks for a tool names one of the agent's. -/
def AsksOffered (agent : AgentNode ω) (intent : IntentEnvelope) (w : ω) : Prop :=
  ∀ turn st resp toolUse executor, ComesTo agent intent w turn st → agent.reply st = .ok resp →
    Asks agent turn resp toolUse executor → ∃ t ∈ agent.tools, t.name = toolUse.name

/-- One of the agent's tools is on offer once the agent has an executor. -/
theorem mem_request_tools {executor : ToolExecutor ω} (hpresent : agent.toolExecutor = some executor)
    {t : ToolDefinition} (ht : t ∈ agent.tools) (messages : List ChatMessage) :
    t ∈ (agent.request messages).tools := by
  have hhas : agent.hasTools = true := by
    rw [hasTools, hpresent, Option.isSome_some, Bool.and_true, Bool.not_eq_true']
    exact List.isEmpty_eq_false_iff_exists_mem.mpr ⟨t, ht⟩
  rw [request, hhas, if_pos rfl]
  exact ht

/-- The chat of a turn, in the log. -/
theorem chat_log {st : AgentState ω} {resp : ChatResponse} (h : agent.reply st = .ok resp) :
    (agent.chat st).log = st.log ++ [.chatted (agent.request st.messages) (.ok resp)] := by
  rw [reply] at h
  rw [chat, h]

/-- A turn that asks only for offered tools executes only offered tools. -/
theorem Turn.onlyOffered {st : AgentState ω} {turn : ℕ}
    {r : Except (AgentBreak ω) (AgentState ω)} (h : Turn agent st turn r)
    (hst : OnlyOffered agent st.log)
    (hasked : ∀ resp toolUse executor, agent.reply st = .ok resp →
      Asks agent turn resp toolUse executor → ∃ t ∈ agent.tools, t.name = toolUse.name) :
    OnlyOffered agent (stateOf r).log := by
  have hchat : OnlyOffered agent (agent.chat st).log := hst.concat trivial
  obtain ⟨resp, toolUse, executor, hreply, hasks, hlog, -⟩ | ⟨-, hlog, -⟩ := h.effect
  · obtain ⟨t, ht, hname⟩ := hasked resp toolUse executor hreply hasks
    rw [hlog]
    refine Loop.Justified.concat hchat ⟨⟨t, ht, hname⟩, ?_⟩
    exact ⟨st.log, _, resp, chat_log hreply, t, mem_request_tools hasks.present ht _, hname⟩
  · rw [hlog]
    exact hchat

/-- **Only offered tools.** The agent executes no tool but those it offered exactly when
the provider never asks for another one. -/
theorem onlyOffered_iff (agent : AgentNode ω) (intent : IntentEnvelope) (w : ω) :
    OnlyOffered agent (agent.run intent w).2.log ↔ AsksOffered agent intent w := by
  refine ⟨fun hlog turn st resp toolUse executor hto hreply hasks => ?_, fun hasked => ?_⟩
  · -- the loop executes what it is asked for, so the execution is in the log
    obtain ⟨rest, hrest⟩ := hto.log_grows
    rw [(effect_of_asks hreply hasks).1, List.append_assoc, List.singleton_append] at hrest
    exact (hlog _ _ _ hrest.symm).1
  · refine run_induction (I := fun st => OnlyOffered agent st.log) Loop.Justified.nil ?_
    intro turn st hto hst
    exact (agent.turnStep_cases st turn).onlyOffered hst
      fun resp toolUse executor => hasked turn st _ _ _ hto

/-- A tool that checks stock. -/
def stockTool : ToolDefinition :=
  ⟨"check_stock", "check stock levels", .obj [], .obj [], .read, ⟨"cap-stock-check"⟩⟩

/-- An agent with one tool, and a provider that first asks for a tool named `wanted`
and then ends the turn. The world counts the chats. -/
def stockAgent (wanted : String) : AgentNode ℕ :=
  (AgentNode.new ⟨"agent"⟩
    (fun _ chats => (.ok ⟨"", 10, 5, .finite 1, "mock",
      if chats = 0 then .toolUse else .endTurn, some ⟨"call-1", wanted, .null⟩⟩, chats + 1))
    "help" "mock" 100 (fun _ => 0) fun _ => 0).withTools [stockTool]
      fun _ _ chats => (.ok "done", chats)

/-- The provider asks for a tool that was not offered, and it is executed. -/
theorem stockAgent_executes_unoffered :
    ¬ OnlyOffered (stockAgent "drop_tables")
      ((stockAgent "drop_tables").run Sample.intent 0).2.log := by
  intro h
  obtain ⟨⟨t, ht, hname⟩, -⟩ := h [_] (.executed "drop_tables" .null (.ok "done")) [_] rfl
  rw [List.mem_singleton.mp ht] at hname
  exact absurd hname (by decide)

end AgentNode

end Aaf
