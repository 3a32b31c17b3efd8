import Buzz.Agent.History
import Buzz.Lib.StateMachine

/-!
# A run of the agent

`RunCtx::run` as a machine over the points at which it waits: the model, the tools and the hooks
answer what they like, and what a cancellation flag reads is an input wherever the source reads it.
A session keeps its history from one run to the next one.

What goes out on the wire, the token counts of a turn and the prompt of a handoff are left out: no
step depends on them.
-/

namespace Buzz.Agent

/-! ### Configuration and limits -/

def maxPromptBytes : Nat := 1024 * 1024

def maxToolCallsPerTurn : Nat := 64

def maxReplyNags : Nat := 2

def u64Max : Nat := 2 ^ 64 - 1

/-- `Config`, as far as a run reads it. -/
structure Config where
  maxRounds : Nat
  maxHistoryBytes : Nat
  maxContextTokens : Nat
  maxOutputTokens : Nat
  maxHandoffs : Nat
  stopMaxRejections : Nat
  requireReply : Bool
  toolTimeoutSecs : Nat

/-- The tools that are registered, and which are hooks. -/
structure McpRegistry where
  has : String → Bool
  isHook : String → Bool

inductive AgentError where
  | invalidParams (s : String)
  | llm (s : String)
  | llmAuth (s : String)
  | llmModelNotFound (s : String)
  | mcp (s : String)
  | cancelled

/-- Why a prompt has ended. -/
inductive StopReason where
  | endTurn
  | cancelled
  | maxTokens
  | maxTurnRequests
  | refusal
  deriving DecidableEq

inductive ProviderStop where
  | endTurn
  | toolUse
  | maxTokens
  | refusal
  | other
  deriving DecidableEq

def mapStop : ProviderStop → StopReason
  | .endTurn | .toolUse | .other => .endTurn
  | .maxTokens => .maxTokens
  | .refusal => .refusal

inductive ContentBlock where
  | text (text : String)
  | resourceLink (uri : String)
  | unsupported

def blockText : ContentBlock → Except AgentError String
  | .text text => .ok text
  | .resourceLink uri => .ok s!"[resource: {uri}]"
  | .unsupported => .error (.invalidParams
      "prompt: unsupported content block (only text and resource_link are advertised)")

def promptToText (prompt : List ContentBlock) : Except AgentError String :=
  (prompt.mapM blockText).map (String.intercalate "\n")

/-- `LlmResponse`, as far as the history depends on it. -/
structure LlmResponse where
  text : String
  toolCalls : List ToolCall
  stop : ProviderStop
  inputTokens : Option Nat
  reasoningDetails : Option Json

/-! ### The reply guard -/

def replyGuardServer : String := "buzz-agent"

def replyGuardNag : String :=
  "You are about to end this turn without calling \x60buzz messages send\x60. Your assistant text and " ++
  "reasoning are never shown to anyone — if you did work, found an answer, or hit a blocker that " ++
  "someone is waiting on, it exists only if you publish it. If you already posted, or if silence is " ++
  "genuinely correct for this turn, ignore this and end your turn."

def isReplyShaped (name : String) (arguments : Json) : Bool :=
  endsWith name "__shell" &&
    match arguments with
    | .obj members =>
      match members.find? fun m => m.1 == "command" with
      | some (_, .str cmd) => containsStr cmd "messages send" || containsStr cmd "reactions add"
      | _ => false
    | _ => false

def isBuzzReplyCall (mcp : McpRegistry) (call : ToolCall) : Bool :=
  mcp.has call.name && !mcp.isHook call.name && isReplyShaped call.name call.arguments

/-! ### Handoffs -/

structure Session where
  history : List HistoryItem
  originalTask : Option String
  handoffCount : Nat
  lastRequestInputTokens : Option Nat
  lastRequestHistoryBytes : Option Nat

/-- The pressure of a history on the context window. -/
def contextPressure (history : List HistoryItem) : Nat :=
  (history.map HistoryItem.contextPressureBytes).sum

/-- `u64::saturating_add`. -/
def saturatingAdd (a b : Nat) : Nat := Nat.min (a + b) u64Max

def tokenThreshold (maxContextTokens maxOutputTokens : Nat) : Nat :=
  Nat.min (maxContextTokens / 10 * 9) (maxContextTokens - maxOutputTokens)

/-- `byte_fallback_threshold`, with one byte for a token. -/
def byteFallbackThreshold (maxContextTokens maxOutputTokens maxHistoryBytes : Nat) : Nat :=
  Nat.min (tokenThreshold maxContextTokens maxOutputTokens) (maxHistoryBytes / 10 * 9)

/-- `projected_handoff_input_tokens`, with one byte for a token. -/
def projectedHandoffInputTokens (s : Session) : Nat :=
  match s.lastRequestInputTokens with
  | some measured =>
    saturatingAdd measured (contextPressure s.history - s.lastRequestHistoryBytes.getD 0)
  | none => contextPressure s.history

def shouldHandoff (cfg : Config) (s : Session) : Bool :=
  match s.lastRequestInputTokens with
  | some _ => tokenThreshold cfg.maxContextTokens cfg.maxOutputTokens ≤ projectedHandoffInputTokens s
  | none =>
    byteFallbackThreshold cfg.maxContextTokens cfg.maxOutputTokens cfg.maxHistoryBytes <
      contextPressure s.history

def hookOutputsText (outputs : List (String × String)) : String :=
  String.intercalate "\n\n" (outputs.map fun o => s!"[{o.1}]\n{o.2}")

/-- The text of the first turn after a handoff. -/
def handoffText (summary : String) (postCompact : List (String × String)) : String :=
  s!"[Context Handoff]\n{summary}" ++
    if postCompact = [] then ""
    else "\n\n[Post-compact hook output — untrusted]\n" ++ hookOutputsText postCompact

def currentPrompt (history : List HistoryItem) : Option String :=
  history.reverse.findSome? fun
    | .user s => some s
    | _ => none

/-! ### Tool calls -/

def loadSkillTool : String := "load_skill"

/-- How `mcp.call`, under the time limit, ends. -/
inductive McpReply where
  | result (content : List ToolResultContent) (isError : Option Bool)
  | rejected (text : String)
  /-- The call was cancelled, by the call itself or by the flag after the time limit. -/
  | cancelled
  | error (e : String)
  | timeout

/-- How a tool call has ended. -/
inductive InvokeOutcome where
  | done (r : ToolResult)
  | failed (msg : String)

/-- `invoke_tool_inner`; a result of `mcp.call` has the id of its call. -/
def invokeToolInner (cfg : Config) (call : ToolCall) : McpReply → InvokeOutcome
  | .result content isError => .done ⟨call.providerId, content, isError.getD false⟩
  | .rejected text => .done ⟨call.providerId, [.text text], true⟩
  | .cancelled => .failed "cancelled"
  | .error e => .failed e
  | .timeout => .failed
    s!"tool: timeout after {cfg.toolTimeoutSecs}s. The command took too long. Try a faster approach."

def outcomeToResult (call : ToolCall) : InvokeOutcome → ToolResult
  | .done r => r
  | .failed msg => syntheticToolResult call msg

/-- Fill the slots that hold nothing as cancelled. -/
def fillCancelled (calls : List ToolCall) (results : List (Option ToolResult)) :
    List (Option ToolResult) :=
  List.zipWith (fun call slot => some (slot.getD (syntheticToolResult call "cancelled"))) calls results

/-- Fill the slots of runnable calls that hold nothing as cancelled. -/
def fillRunnable (calls : List ToolCall) (runnable : List Nat)
    (results : List (Option ToolResult)) : List (Option ToolResult) :=
  runnable.foldl (fun results i =>
    match calls[i]?, results[i]? with
    | some call, some none => results.set i (some (syntheticToolResult call "cancelled"))
    | _, _ => results) results

/-! ### The points of a run -/

/-- The local variables of the loop. -/
structure Locals where
  round : Nat
  stopRejections : Nat
  buzzReplyCallSeen : Bool
  replyNags : Nat

/-- The tool calls of one answer, their results, and those that may run. -/
structure Batch where
  calls : List ToolCall
  results : List (Option ToolResult)
  runnable : List Nat

/-- The await points of a session. -/
inductive Phase where
  | idle (last : Option (Except AgentError StopReason))
  | top (l : Locals)
  | summarizing (l : Locals)
  | compacting (l : Locals) (summary : String) (prompt : Option String)
  | completing (l : Locals)
  | stopping (l : Locals)
  | calling (l : Locals) (batch : Batch) (idx : Nat)
  | joining (l : Locals) (batch : Batch) (outstanding : List Nat) (cancelled : Bool)

/-- A session and the point where it stands. -/
structure AgentState where
  session : Session
  phase : Phase

inductive Input where
  | prompt (blocks : List ContentBlock)
  /-- What the flag reads at the top of the loop, and the steers that are queued. -/
  | boundary (cancelled : Bool) (steers : List (List ContentBlock))
  | cancel
  | summary (reply : Except String String)
  | hooks (outputs : List (String × String)) (ordinals : Nat → Nat)
  | completion (reply : Except AgentError LlmResponse)
  /-- What the flag reads before a tool call, and what `load_skill` would give. -/
  | preflight (cancelled : Bool) (skill : ToolResult)
  | joined (i : Nat) (reply : McpReply)
  | joinError (i : Nat)
  /-- No tool is left, or the time for them to end is up; what the flag reads afterwards. -/
  | drained (timedOut cancelled : Bool)

variable (cfg : Config) (mcp : McpRegistry)

def AgentState.finish (s : AgentState) (result : Except AgentError StopReason) : AgentState :=
  { s with phase := .idle (some result) }

/-- The run goes on with this history. -/
def AgentState.goTo (s : AgentState) (history : List HistoryItem) (phase : Phase) : AgentState :=
  ⟨{ s.session with history := history }, phase⟩

/-- The text of a steer that is not dropped. -/
def steerText (blocks : List ContentBlock) : Option String :=
  match promptToText blocks with
  | .ok text => if text.toList.all isWhitespace then none else some text
  | .error _ => none

def drainSteers (history : List HistoryItem) (steers : List (List ContentBlock)) :
    List HistoryItem :=
  history ++ (steers.filterMap steerText).map HistoryItem.user

def AgentState.skipHandoff (s : AgentState) (l : Locals) : AgentState :=
  s.goTo (truncateHistory s.session.history cfg.maxHistoryBytes)
    (.completing { l with round := l.round + 1 })

/-- The beginning of `run`. -/
def onPrompt (s : AgentState) (blocks : List ContentBlock) : AgentState :=
  match promptToText blocks with
  | .error e => s.finish (.error e)
  | .ok userText =>
    if maxPromptBytes < byteLen userText then
      s.finish (.error (.invalidParams s!"prompt: exceeds {maxPromptBytes} bytes"))
    else
      ⟨{ s.session with
          originalTask := some (s.session.originalTask.getD userText)
          history := s.session.history ++ [.user userText] }, .top ⟨0, 0, false, 0⟩⟩

/-- The top of the loop, up to the next wait. -/
def onBoundary (s : AgentState) (l : Locals) (cancelled : Bool) (steers : List (List ContentBlock)) :
    AgentState :=
  if 0 < cfg.maxRounds ∧ cfg.maxRounds ≤ l.round then s.finish (.ok .maxTurnRequests)
  else if cancelled then s.finish (.ok .cancelled)
  else
    let s := s.goTo (drainSteers s.session.history steers) (.top l)
    if shouldHandoff cfg s.session ∧ s.session.handoffCount < cfg.maxHandoffs then
      { s with phase := .summarizing l }
    else s.skipHandoff cfg l

/-- The rest of `maybe_handoff` up to the hooks. -/
def onSummary (s : AgentState) (l : Locals) : Except String String → AgentState
  | .ok summary =>
    if summary.toList.all isWhitespace then s.skipHandoff cfg l
    else s.goTo [] (.compacting l summary (currentPrompt s.session.history))
  | .error _ => s.skipHandoff cfg l

/-- The end of `maybe_handoff`. -/
def onPostCompact (s : AgentState) (l : Locals) (summary : String) (prompt : Option String)
    (outputs : List (String × String)) : AgentState :=
  ⟨{ s.session with
      history := s.session.history ++ .user (handoffText summary outputs) ::
        (prompt.map HistoryItem.user).toList
      handoffCount := s.session.handoffCount + 1
      lastRequestInputTokens := none
      lastRequestHistoryBytes := none }, .completing { l with round := l.round + 1 }⟩

/-- The answer of the model, up to the next wait. -/
def onCompletion (s : AgentState) (l : Locals) (response : LlmResponse) : AgentState :=
  let s := match response.inputTokens with
    | some tokens => { s with session := { s.session with
        lastRequestInputTokens := some tokens
        lastRequestHistoryBytes := some (contextPressure s.session.history) } }
    | none => s
  if response.toolCalls = [] then
    if response.stop = .toolUse then
      s.finish (.error (.llm "provider: stop=tool_use but zero tool_calls"))
    else
      let s := s.goTo
        (s.session.history ++ [.assistant response.text [] response.reasoningDetails]) s.phase
      let stop := mapStop response.stop
      if stop = .endTurn then
        if cfg.stopMaxRejections ≤ l.stopRejections then s.finish (.ok stop)
        else { s with phase := .stopping l }
      else s.finish (.ok stop)
  else
    -- a call that is cut off is as if the model had not made it
    let calls := response.toolCalls.take maxToolCallsPerTurn
    let l := { l with
      buzzReplyCallSeen := l.buzzReplyCallSeen ||
        (cfg.requireReply && calls.any (isBuzzReplyCall mcp)) }
    s.goTo (s.session.history ++ [.assistant response.text calls response.reasoningDetails])
      (.calling l ⟨calls, calls.map fun _ => none, []⟩ 0)

/-- The objections to the end of a turn, the reminder of the reply guard among them. -/
def stopObjections (l : Locals) (outputs : List (String × String)) :
    List (String × String) × Locals :=
  if cfg.requireReply ∧ l.buzzReplyCallSeen = false ∧ l.replyNags < maxReplyNags then
    (outputs ++ [(replyGuardServer, replyGuardNag)], { l with replyNags := l.replyNags + 1 })
  else (outputs, l)

/-- The end of a turn, or the next round if there are objections. -/
def onStopHooks (s : AgentState) (l : Locals) (outputs : List (String × String))
    (ordinals : Nat → Nat) : AgentState :=
  let (objections, l) := stopObjections cfg l outputs
  if objections = [] then s.finish (.ok .endTurn)
  else
    s.goTo (pushHookOutputs s.session.history "_Stop" ordinals objections)
      (.top { l with stopRejections := l.stopRejections + 1 })

/-- The next call of a batch, or the tools if there is none. -/
def nextCall (l : Locals) (batch : Batch) (idx : Nat) : Phase :=
  if idx + 1 < batch.calls.length then .calling l batch (idx + 1)
  else .joining l batch batch.runnable false

/-- `execute_calls`, for one call. -/
def onPreflight (s : AgentState) (l : Locals) (batch : Batch) (idx : Nat) (cancelled : Bool)
    (skill : ToolResult) : AgentState :=
  match batch.calls[idx]? with
  | none => { s with phase := .joining l batch batch.runnable false }
  | some call =>
    if cancelled then
      (s.goTo (appendResults s.session.history batch.calls
        (fillCancelled batch.calls batch.results)) s.phase).finish (.ok .cancelled)
    else if call.name = loadSkillTool then
      { s with phase := nextCall l { batch with
          results := batch.results.set idx (some { skill with providerId := call.providerId }) } idx }
    else if ¬ mcp.has call.name ∨ mcp.isHook call.name then
      { s with phase := nextCall l { batch with
          results := batch.results.set idx
            (some (syntheticToolResult call s!"unknown tool: {call.name}")) } idx }
    else { s with phase := nextCall l { batch with runnable := batch.runnable ++ [idx] } idx }

/-- `execute_parallel`, for one tool that is done. -/
def onJoined (s : AgentState) (l : Locals) (batch : Batch) (outstanding : List Nat)
    (cancelled : Bool) (i : Nat) (reply : McpReply) : Option AgentState :=
  match batch.calls[i]? with
  | some call =>
    if i ∈ outstanding then
      let result := outcomeToResult call (invokeToolInner cfg call reply)
      -- after a cancellation a slot is only filled if it holds nothing
      let results :=
        if cancelled ∧ batch.results[i]?.join.isSome then batch.results
        else batch.results.set i (some result)
      let batch := { batch with results := results }
      some { s with phase := .joining l batch (outstanding.erase i) cancelled }
    else none
  | none => none

/-- The end of `execute_calls`. -/
def onDrained (s : AgentState) (l : Locals) (batch : Batch) (cancelled : Bool) : AgentState :=
  let s := s.goTo (appendResults s.session.history batch.calls
    (fillRunnable batch.calls batch.runnable batch.results)) (.top l)
  if cancelled then s.finish (.ok .cancelled) else s

def runStep (s : AgentState) (input : Input) : Option AgentState :=
  match s.phase, input with
  | .idle _, .prompt blocks => some (onPrompt s blocks)
  | .top l, .boundary cancelled steers => some (onBoundary cfg s l cancelled steers)
  | .summarizing _, .cancel => some (s.finish (.ok .cancelled))
  | .summarizing l, .summary reply => some (onSummary cfg s l reply)
  | .compacting l summary prompt, .hooks outputs _ =>
    some (onPostCompact s l summary prompt outputs)
  | .completing _, .cancel => some (s.finish (.ok .cancelled))
  | .completing _, .completion (.error e) => some (s.finish (.error e))
  | .completing l, .completion (.ok response) => some (onCompletion cfg mcp s l response)
  | .stopping l, .hooks outputs ordinals => some (onStopHooks cfg s l outputs ordinals)
  | .calling l batch idx, .preflight cancelled skill =>
    some (onPreflight mcp s l batch idx cancelled skill)
  | .joining l batch outstanding _, .cancel =>
    some { s with phase := .joining l batch outstanding true }
  | .joining l batch outstanding cancelled, .joined i reply =>
    onJoined cfg s l batch outstanding cancelled i reply
  | .joining l batch outstanding cancelled, .joinError i =>
    if i ∈ outstanding then
      some { s with phase := .joining l batch (outstanding.erase i) cancelled }
    else none
  | .joining l batch outstanding cancelled, .drained timedOut flag =>
    if outstanding = [] ∨ (cancelled ∧ timedOut) then some (onDrained s l batch flag) else none
  | _, _ => none

/-- A session from its first prompt on. -/
def sessionMachine : StateMachine AgentState Input where
  Init s := s.session.history = [] ∧ s.session.originalTask = none ∧ s.phase = .idle none
  step := runStep cfg mcp

/-! ### What holds where a run waits -/

variable {calls : List ToolCall} {results : List (Option ToolResult)}

theorem slots_fillCancelled (h : Slots calls results) :
    Slots calls (fillCancelled calls results) := by
  rw [fillCancelled]
  induction h with
  | nil => exact .nil
  | @cons call slot _ _ hslot _ ih =>
    refine .cons ?_ ih
    intro r hr
    cases hr
    cases slot with
    | none => rfl
    | some r => exact hslot r rfl

theorem slots_fillRunnable (runnable : List Nat) (h : Slots calls results) :
    Slots calls (fillRunnable calls runnable results) := by
  rw [fillRunnable]
  induction runnable generalizing results with
  | nil => exact h
  | cons i runnable ih =>
    rw [List.foldl_cons]
    refine ih ?_
    split
    · next call hcall _ => exact h.set hcall rfl
    · exact h

theorem providerId_outcomeToResult (cfg : Config) (call : ToolCall) (reply : McpReply) :
    (outcomeToResult call (invokeToolInner cfg call reply)).providerId = call.providerId := by
  cases reply <;> rfl

/-- The transcript while tool calls are answered: the calls stand at its end, and their slots hold
results of theirs. -/
def Pending (history : List HistoryItem) (batch : Batch) : Prop :=
  Slots batch.calls batch.results ∧
    ∃ before text details, Sound before ∧ history = before ++ [.assistant text batch.calls details]

/-- The transcript between two runs: nothing before the first prompt is accepted. -/
def Rested (s : Session) : Prop := Sound s.history ∨ s.history = [] ∧ s.originalTask = none

def Turn (s : AgentState) : Prop :=
  match s.phase with
  | .idle _ => Rested s.session
  | .top _ | .summarizing _ | .completing _ | .stopping _ => Sound s.session.history
  | .compacting _ _ _ => s.session.history = []
  | .calling _ batch _ | .joining _ batch _ _ => Pending s.session.history batch

variable {s : AgentState}

theorem turn_finish (h : Sound s.session.history) (result : Except AgentError StopReason) :
    Turn (s.finish result) := Or.inl h

variable {history : List HistoryItem}

theorem Sound.drainSteers (h : Sound history) (steers : List (List ContentBlock)) :
    Sound (drainSteers history steers) := by
  refine h.append ?_
  generalize steers.filterMap steerText = texts
  induction texts with
  | nil => exact .nil
  | cons text texts ih => exact (grammatical_user text).append ih

theorem turn_skipHandoff (h : Sound s.session.history) (l : Locals) :
    Turn (s.skipHandoff cfg l) := h.truncateHistory cfg.maxHistoryBytes

theorem turn_onPrompt (h : Rested s.session) (blocks : List ContentBlock) :
    Turn (onPrompt s blocks) := by
  rw [onPrompt]
  split
  · exact h
  · split
    · exact h
    · exact sound_append_user (h.symm.imp And.left id) _

theorem turn_onBoundary (h : Sound s.session.history) (l : Locals) (cancelled : Bool)
    (steers : List (List ContentBlock)) : Turn (onBoundary cfg s l cancelled steers) := by
  have hdrained := h.drainSteers steers
  rw [onBoundary]
  split
  · exact turn_finish h _
  · split
    · exact turn_finish h _
    · dsimp only
      split
      · exact hdrained
      · exact turn_skipHandoff cfg hdrained l

theorem turn_onSummary (h : Sound s.session.history) (l : Locals) (reply : Except String String) :
    Turn (onSummary cfg s l reply) := by
  cases reply with
  | error e => exact turn_skipHandoff cfg h l
  | ok summary =>
    rw [onSummary]
    split
    · exact turn_skipHandoff cfg h l
    · rfl

theorem turn_onPostCompact (h : s.session.history = []) (l : Locals) (summary : String)
    (prompt : Option String) (outputs : List (String × String)) :
    Turn (onPostCompact s l summary prompt outputs) := by
  have hfirst : Sound [HistoryItem.user (handoffText summary outputs)] :=
    sound_append_user (Or.inl rfl) _
  show Sound (s.session.history ++ _)
  rw [h]
  cases prompt with
  | none => exact hfirst
  | some text => exact hfirst.append (grammatical_user text)

theorem turn_onCompletion (h : Sound s.session.history) (l : Locals) (response : LlmResponse) :
    Turn (onCompletion cfg mcp s l response) := by
  rw [onCompletion]
  -- the token counts leave the history alone
  generalize hs' : (match response.inputTokens with
    | some tokens => { s with session := { s.session with
        lastRequestInputTokens := some tokens
        lastRequestHistoryBytes := some (contextPressure s.session.history) } }
    | none => s) = s'
  have h' : Sound s'.session.history := by
    rw [← hs']
    split
    · exact h
    · exact h
  dsimp only
  split
  · split
    · exact turn_finish h' _
    · have hanswered := h'.append (grammatical_assistant response.text response.reasoningDetails)
      split
      · split
        · exact turn_finish hanswered _
        · exact hanswered
      · exact turn_finish hanswered _
  · exact ⟨slots_none _, _, _, _, h', rfl⟩

theorem turn_onStopHooks (h : Sound s.session.history) (l : Locals)
    (outputs : List (String × String)) (ordinals : Nat → Nat) :
    Turn (onStopHooks cfg s l outputs ordinals) := by
  rw [onStopHooks]
  generalize stopObjections cfg l outputs = r
  obtain ⟨objections, l⟩ := r
  dsimp only
  split
  · exact turn_finish h _
  · exact h.pushHookOutputs "_Stop" ordinals _

variable {batch : Batch}

theorem turn_nextCall (h : Pending s.session.history batch) (l : Locals) (idx : Nat) :
    Turn { s with phase := nextCall l batch idx } := by
  rw [nextCall]
  split
  · exact h
  · exact h

theorem Pending.appendResults (h : Pending history batch) (hslots : Slots batch.calls results) :
    Sound (appendResults history batch.calls results) := by
  obtain ⟨-, before, text, details, hbefore, rfl⟩ := h
  exact hbefore.appendResults hslots text details

theorem turn_onPreflight (h : Pending s.session.history batch) (l : Locals) (idx : Nat)
    (cancelled : Bool) (skill : ToolResult) :
    Turn (onPreflight mcp s l batch idx cancelled skill) := by
  have hset : ∀ call r, batch.calls[idx]? = some call → r.providerId = call.providerId →
      Pending s.session.history { batch with results := batch.results.set idx (some r) } :=
    fun call r hcall hr => ⟨h.1.set hcall hr, h.2⟩
  rw [onPreflight]
  split
  · exact h
  · next call hcall =>
    split
    · exact turn_finish (h.appendResults (slots_fillCancelled h.1)) _
    · split
      · exact turn_nextCall (hset call _ hcall rfl) l idx
      · split
        · exact turn_nextCall (hset call _ hcall rfl) l idx
        · have hrunnable : Pending s.session.history
              { batch with runnable := batch.runnable ++ [idx] } := ⟨h.1, h.2⟩
          exact turn_nextCall hrunnable l idx

theorem turn_onJoined {s' : AgentState} (h : Pending s.session.history batch) {l : Locals}
    {outstanding : List Nat} {cancelled : Bool} {i : Nat} {reply : McpReply}
    (hs : onJoined cfg s l batch outstanding cancelled i reply = some s') : Turn s' := by
  rw [onJoined] at hs
  split at hs
  · next call hcall =>
    obtain ⟨-, hs⟩ := Option.ite_none_right_eq_some.mp hs
    cases hs
    refine ⟨?_, h.2⟩
    show Slots batch.calls (if _ then _ else _)
    split
    · exact h.1
    · exact h.1.set hcall (providerId_outcomeToResult cfg call reply)
  · nomatch hs

theorem turn_onDrained (h : Pending s.session.history batch) (l : Locals) (cancelled : Bool) :
    Turn (onDrained s l batch cancelled) := by
  have hresults := h.appendResults (slots_fillRunnable batch.runnable h.1)
  rw [onDrained]
  split
  · exact turn_finish hresults _
  · exact hresults

/-- **One step** leaves the transcript in order where the run waits next. -/
theorem Turn.step {s' : AgentState} {input : Input} (h : Turn s)
    (hs : runStep cfg mcp s input = some s') : Turn s' := by
  obtain ⟨session, phase⟩ := s
  cases phase with
  | idle last =>
    cases input with
    | prompt blocks =>
      cases hs
      exact turn_onPrompt h blocks
    | _ => nomatch hs
  | top l =>
    cases input with
    | boundary cancelled steers =>
      cases hs
      exact turn_onBoundary cfg h l cancelled steers
    | _ => nomatch hs
  | summarizing l =>
    cases input with
    | cancel =>
      cases hs
      exact turn_finish h _
    | summary reply =>
      cases hs
      exact turn_onSummary cfg h l reply
    | _ => nomatch hs
  | compacting l summary prompt =>
    cases input with
    | hooks outputs ordinals =>
      cases hs
      exact turn_onPostCompact h l summary prompt outputs
    | _ => nomatch hs
  | completing l =>
    cases input with
    | cancel =>
      cases hs
      exact turn_finish h _
    | completion reply =>
      cases reply with
      | error e =>
        cases hs
        exact turn_finish h _
      | ok response =>
        cases hs
        exact turn_onCompletion cfg mcp h l response
    | _ => nomatch hs
  | stopping l =>
    cases input with
    | hooks outputs ordinals =>
      cases hs
      exact turn_onStopHooks cfg h l outputs ordinals
    | _ => nomatch hs
  | calling l batch idx =>
    cases input with
    | preflight cancelled skill =>
      cases hs
      exact turn_onPreflight mcp h l idx cancelled skill
    | _ => nomatch hs
  | joining l batch outstanding cancelled =>
    cases input with
    | cancel =>
      cases hs
      exact h
    | joined i reply => exact turn_onJoined cfg h hs
    | joinError i =>
      obtain ⟨-, hs⟩ := Option.ite_none_right_eq_some.mp hs
      cases hs
      exact h
    | drained timedOut flag =>
      obtain ⟨-, hs⟩ := Option.ite_none_right_eq_some.mp hs
      cases hs
      exact turn_onDrained h l flag
    | _ => nomatch hs

theorem turn_of_reachable (h : (sessionMachine cfg mcp).Reachable s) : Turn s := by
  refine h.invariant (I := Turn) ?_ fun s input s' _ hI hs => hI.step cfg mcp hs
  rintro ⟨session, phase⟩ ⟨hhistory, htask, rfl⟩
  exact Or.inr ⟨hhistory, htask⟩

/-- **The transcript is valid** at every request to the model, and whenever a run has ended, unless no
prompt of the session has been accepted yet; then there is none. -/
theorem transcript_valid {s : AgentState} (h : (sessionMachine cfg mcp).Reachable s) :
    (∀ l, s.phase = .completing l → Valid s.session.history) ∧
      ∀ last, s.phase = .idle last →
        Valid s.session.history ∨ s.session.history = [] ∧ s.session.originalTask = none := by
  have hturn := turn_of_reachable cfg mcp h
  obtain ⟨session, phase⟩ := s
  refine ⟨?_, ?_⟩
  · rintro l rfl
    exact Sound.valid hturn
  · rintro last rfl
    exact Or.imp_left Sound.valid hturn

/-! ### A refused prompt, and one that is answered -/

def newSession : AgentState := ⟨⟨[], none, 0, none, none⟩, .idle none⟩

def defaultConfig : Config where
  maxRounds := 0
  maxHistoryBytes := 16 * 1024 * 1024
  maxContextTokens := 200000
  maxOutputTokens := 32768
  maxHandoffs := 10
  stopMaxRejections := 3
  requireReply := false
  toolTimeoutSecs := 660

def noTools : McpRegistry := ⟨fun _ => false, fun _ => false⟩

/-- The first prompt of a session is refused, and the history that the run hands back does not begin
with a turn of the user. -/
theorem not_transcript_valid :
    ∃ s e, (sessionMachine defaultConfig noTools).run newSession [.prompt [.unsupported]] = some s ∧
      s.phase = .idle (some (.error e)) ∧ ¬ Valid s.session.history := by
  refine ⟨_, _, rfl, rfl, ?_⟩
  rintro ⟨⟨text, rest, hbegins⟩, -⟩
  nomatch hbegins

/-- The model calls a tool that does not exist. -/
def hallucinatedCall : LlmResponse where
  text := ""
  toolCalls := [⟨"call_1", "fake__shell", .obj [], []⟩]
  stop := .toolUse
  inputTokens := none
  reasoningDetails := none

/-- A prompt, a call, and a cancellation while its failure is written. -/
def callRun : List Input :=
  [.prompt [.text "hi"], .boundary false [], .completion (.ok hallucinatedCall),
    .preflight false ⟨"", [], false⟩, .drained false true]

theorem transcript_valid_callRun :
    ∃ s, (sessionMachine defaultConfig noTools).run newSession callRun = some s ∧
      s.phase = .idle (some (.ok .cancelled)) ∧ s.session.history.length = 3 ∧
      Valid s.session.history := by
  have hrun : ∃ s, (sessionMachine defaultConfig noTools).run newSession callRun = some s ∧
      s.phase = .idle (some (.ok .cancelled)) ∧ s.session.history.length = 3 := by
    refine ⟨_, rfl, rfl, ?_⟩
    have hfits : truncateHistory [.user "hi"] defaultConfig.maxHistoryBytes = [.user "hi"] :=
      truncateHistory_of_le (by decide +kernel)
    show (appendResults (truncateHistory [.user "hi"] defaultConfig.maxHistoryBytes ++ [_]) _
      _).length = 3
    rw [hfits]
    rfl
  obtain ⟨s, hs, hphase, hlength⟩ := hrun
  refine ⟨s, hs, hphase, hlength, ?_⟩
  rcases (transcript_valid defaultConfig noTools ⟨newSession, _, ⟨rfl, rfl, rfl⟩, hs⟩).2 _ hphase with
    hvalid | ⟨hempty, -⟩
  · exact hvalid
  · rw [hempty] at hlength
    nomatch hlength

end Buzz.Agent
