import Mowis.Orchestration.Plan
import Mowis.Review.Reviewer

/-!
# A crew agent

`Crew::run` of `mowis-orchestration/src/crew.rs` with `AgentConversation` of `providers.rs`
and the allowlist of `tools.rs`.  A turn of the loop checks the budgets, asks the model for a
round and handles the tool calls of its reply one after another.

What the model and the tools answer is in `Script`.  Calls of the model and of the tool
gateway are recorded, with the conversation as it was at the call, in the order in which they
are made.
-/

namespace Mowis.Orchestration

open Mowis.Lib
open Mowis.Review (Json)

structure ToolCall where
  id : String
  name : String
  args : Json

inductive ConvMessage where
  | user (text : String)
  | assistantText (text : String)
  | assistantToolCalls (calls : List ToolCall)
  | toolResults (results : List (String × String × Json))

structure AgentConversation where
  messages : List ConvMessage

namespace AgentConversation

def new : AgentConversation := ⟨[]⟩

def pushUser (c : AgentConversation) (text : String) : AgentConversation :=
  ⟨c.messages ++ [.user text]⟩

def pushAssistant (c : AgentConversation) (text : String) : AgentConversation :=
  ⟨c.messages ++ [.assistantText text]⟩

def pushAssistantToolCalls (c : AgentConversation) (calls : List ToolCall) : AgentConversation :=
  ⟨c.messages ++ [.assistantToolCalls calls]⟩

def pushToolResults (c : AgentConversation) (results : List (ToolCall × Json)) :
    AgentConversation :=
  ⟨c.messages ++ [.toolResults (results.map fun r => (r.1.id, r.1.name, r.2))]⟩

end AgentConversation

/-- `ConvMessage::AssistantToolCalls(_)` -/
def ConvMessage.isToolCalls : ConvMessage → Bool
  | .assistantToolCalls _ => true
  | _ => false

def AgentConversation.roundCount (c : AgentConversation) : ℕ :=
  (c.messages.filter ConvMessage.isToolCalls).length

structure TokenUsage where
  inputTokens : ℕ
  outputTokens : ℕ

structure AgentRoundResult where
  text : Option String
  toolCalls : List ToolCall
  usage : TokenUsage

def AgentRoundResult.isFinal (r : AgentRoundResult) : Bool := r.toolCalls.isEmpty

/-! ### The crew -/

structure ToolAllowlist where
  allowed : List String
  deniedPrefixes : List String

def ToolAllowlist.allows (l : ToolAllowlist) (toolName : String) : Bool :=
  if l.deniedPrefixes.any (fun d => d.toList.isPrefixOf toolName.toList) then false
  else l.allowed.isEmpty || l.allowed.contains toolName

def crewAllowlist : ToolAllowlist := ⟨[], []⟩

def maxRounds : ℕ := 8
def maxToolCalls : ℕ := 12
def maxInputTokens : ℕ := 100000

/-- A crew, and the hash of the arguments of a tool call. -/
structure Crew where
  agentId : String
  title : String
  description : String
  allowlist : ToolAllowlist
  jsonHash : Json → ℕ

/-- What the model and the tools answer: to the call of turn `t`, to the `i`-th tool call of
its reply, to the question for input that this tool call may raise, and to the last call. -/
structure Script where
  reply : ℕ → Except String AgentRoundResult
  result : ℕ → ℕ → Except String Json
  input : ℕ → ℕ → Except String AgentRoundResult
  final : Except String AgentRoundResult

/-- The calls of the model: for a round with the crew's tools, for the input of a command with
the tool `send_input`, and without tools for the final answer. -/
inductive LlmCall where
  | round
  | input
  | final
  deriving DecidableEq, Repr

/-- A call that the crew makes. -/
inductive Action where
  | llm (call : LlmCall) (conversation : AgentConversation)
  | invoke (call : ToolCall)

structure CrewState where
  turn : ℕ
  conversation : AgentConversation
  toolCallCount : ℕ
  totalInputTokens : ℕ
  recentCalls : HashMap (String × ℕ) ℕ
  writtenFiles : HashMap Text ℕ
  actions : List Action

def CrewState.act (st : CrewState) (a : Action) : CrewState := { st with actions := st.actions ++ [a] }

/-- `tc.args.get("path").and_then(|v| v.as_str())` -/
def ToolCall.path (tc : ToolCall) : Option Text := tc.args.getStr "path".toList

def errorJson (message : String) : Json := .object [("error".toList, .string message.toList)]

def alreadyWroteText (path : Text) (index : ℕ) : String :=
  "BLOCKED: You already wrote to " ++ String.ofList path ++ " (call #" ++ toString index ++
    "). A crew agent must write each file EXACTLY ONCE. " ++
    "You are wasting tokens. Move on to the next file or emit your summary."

def readBackText (path : Text) : String :=
  "BLOCKED: You already wrote " ++ String.ofList path ++ ". You HAVE its content in context. " ++
    "Reading it back is a waste of tokens. STOP verifying your own work."

def repeatedText (name : String) (index : ℕ) : String :=
  "BLOCKED: You already called " ++ name ++ " with the same arguments (call #" ++ toString index ++
    "). Nothing changed. STOP and move on."

def waitingText (prompt : Text) : String :=
  "The command is waiting for input. The prompt is:\n" ++ String.ofList prompt ++
    "\nWhat should I type? Respond with ONLY the input text, nothing else."

def budgetText : String :=
  "[SYSTEM] You have used your iteration budget. Emit your final answer now. " ++
    "Do not call any more tools. Summarize what you accomplished."

def rejectedWrite (st : CrewState) (tc : ToolCall) : Option String :=
  if tc.name = "write_file" then
    tc.path.bind fun path => (st.writtenFiles.lookup path).map (alreadyWroteText path)
  else none

def recordWrite (st : CrewState) (tc : ToolCall) : CrewState :=
  if tc.name = "write_file" then
    match tc.path with
    | some path => { st with writtenFiles := st.writtenFiles.insert path st.toolCallCount }
    | none => st
  else st

def rejectedRead (st : CrewState) (tc : ToolCall) : Option String :=
  if tc.name = "read_file" then
    tc.path.bind fun path => (st.writtenFiles.lookup path).map fun _ => readBackText path
  else none

/-- The value of a tool call, or its error as a value. -/
def resultJson : Except String Json → Json
  | .ok value => value
  | .error e => errorJson e

def interactivePrompt (result : Json) : Option Text :=
  (result.getStr "interactive_prompt".toList).filter (fun prompt => decide (prompt ≠ []))

def sendInput (tc : ToolCall) (text : Option String) : ToolCall where
  id := tc.id ++ "-input"
  name := "send_input"
  args := .object [("input".toList, .string (trim (text.getD "y").toList))]

namespace Crew

variable (crew : Crew) (script : Script)

def allows (name : String) : Bool := crew.allowlist.allows name

def callKey (tc : ToolCall) : String × ℕ := (tc.name, crew.jsonHash tc.args)

/-- A tool call that was not blocked: it is counted and made, and a command that waits for
input gets it from the model. -/
def invoke (index : ℕ) (tc : ToolCall) (st : CrewState) : CrewState × Json :=
  let st₁ := { st with
    recentCalls := st.recentCalls.insert (crew.callKey tc) st.toolCallCount
    toolCallCount := st.toolCallCount + 1
    actions := st.actions ++ [.invoke tc] }
  let result := resultJson (script.result st.turn index)
  match interactivePrompt result with
  | none => (st₁, result)
  | some prompt =>
    let conversation :=
      (st₁.conversation.pushToolResults [(tc, result)]).pushUser (waitingText prompt)
    let st₂ := { st₁ with
      conversation := conversation
      actions := st₁.actions ++ [.llm .input conversation] }
    match script.input st.turn index with
    | .error _ => (st₂, result)
    | .ok round => (st₂.act (.invoke (sendInput tc round.text)), result)

def handleCall (index : ℕ) (tc : ToolCall) (st : CrewState) : CrewState × Json :=
  if crew.allows tc.name = false then (st, errorJson "tool forbidden")
  else
    match rejectedWrite st tc with
    | some msg => (st, errorJson msg)
    | none =>
      let st₁ := recordWrite st tc
      match rejectedRead st₁ tc with
      | some msg => (st₁, errorJson msg)
      | none =>
        match st₁.recentCalls.lookup (crew.callKey tc) with
        | some prev => (st₁, errorJson (repeatedText tc.name prev))
        | none => crew.invoke script index tc st₁

/-- The loop over the tool calls of a reply, from the one at `index` on. -/
def handleCalls : ℕ → List ToolCall → CrewState → CrewState × List (ToolCall × Json)
  | _, [], st => (st, [])
  | index, tc :: rest, st =>
    let (st₁, result) := crew.handleCall script index tc st
    let (st₂, results) := handleCalls (index + 1) rest st₁
    (st₂, (tc, result) :: results)

/-- A crew at work, or what it returned with the calls it made. -/
inductive Config where
  | running (st : CrewState)
  | returned (outcome : CrewOutcome) (actions : List Action)

def done (st : CrewState) (summary : String) : Config :=
  .returned (.done crew.agentId summary st.toolCallCount) st.actions

def failed (st : CrewState) (reason : String) : Config :=
  .returned (.failed crew.agentId reason st.toolCallCount) st.actions

/-- The last call of the model, when the rounds are used up. -/
def finish (st : CrewState) : Config :=
  let conversation := st.conversation.pushUser budgetText
  let st₁ := { st with conversation := conversation }.act (.llm .final conversation)
  match script.final with
  | .ok round => crew.done st₁ (round.text.getD "Task completed (budget)")
  | .error _ => crew.done st₁ "Task completed (budget exhaustion)"

def turn (st : CrewState) : Config :=
  if maxRounds ≤ st.conversation.roundCount then crew.finish script st
  else if maxToolCalls ≤ st.toolCallCount then crew.failed st "tool call budget exceeded"
  else if maxInputTokens ≤ st.totalInputTokens then crew.failed st "input token budget exceeded"
  else
    let st₁ := st.act (.llm .round st.conversation)
    match script.reply st.turn with
    | .error e => crew.failed st₁ ("LLM error: " ++ e)
    | .ok round =>
      let st₂ := { st₁ with totalInputTokens := st₁.totalInputTokens + round.usage.inputTokens }
      if round.isFinal then crew.done st₂ (round.text.getD "Task completed")
      else
        let (st₃, results) := crew.handleCalls script 0 round.toolCalls st₂
        .running { st₃ with
          turn := st.turn + 1
          conversation := st₃.conversation.pushToolResults results }

def step : Config → Config
  | .running st => crew.turn script st
  | .returned outcome actions => .returned outcome actions

def start : CrewState where
  turn := 0
  conversation := AgentConversation.new.pushUser
    ("Complete this task: " ++ crew.title ++ "\n\nDescription: " ++ crew.description)
  toolCallCount := 0
  totalInputTokens := 0
  recentCalls := ∅
  writtenFiles := ∅
  actions := []

/-- The run after `n` turns. -/
def run (n : ℕ) : Config := (crew.step script)^[n] (.running crew.start)

end Crew

end Mowis.Orchestration
