import Mowis.Planning.PlanText
import Mowis.Orchestration.Crew

/-!
# The Conductor

The operations of `Conductor` in `mowis-orchestration/src/conductor.rs`: a user message with
the classifier, the tool loop and the drafting of plans, the verdict of the critic, the report
of a finished build, and the one-task plan of a hot patch.

The conversation is a list of texts.  Who produced an entry is recorded beside it and read by
no operation, as are the requests sent to the model, the texts it replied with and the
captains dispatched.  What the model, the clock and the disk answer comes with each operation.
-/

namespace Mowis.Planning

open Mowis.Lib
open Mowis.Review (Json)
open Mowis.Orchestration (TaskId PlanId TaskNode OrchConfig Decrypt LlmConfig ToolCall ConvMessage
  AgentRoundResult)

inductive Speaker where
  | user
  | system
  | model
  deriving DecidableEq, Repr

structure Entry where
  speaker : Speaker
  text : String
  deriving DecidableEq, Repr

inductive Role where
  | user
  | assistant
  deriving DecidableEq, Repr

def roleAt (i : ℕ) : Role := if i % 2 = 0 then .user else .assistant

def history (conversation : List Entry) : List (Role × Entry) :=
  conversation.mapIdx fun i e => (roleAt i, e)

/-- A call of the model: the history, and the messages that a tool loop has added behind it. -/
structure Request where
  history : List (Role × Entry)
  later : List ConvMessage

/-- A captain spawned by `start_build`, with the replies of the model until then. -/
structure Dispatch where
  planId : PlanId
  replies : List String

structure Conductor where
  conversation : List Entry
  currentPlan : Option PlanId
  disk : Disk
  requests : List Request
  replies : List String
  dispatches : List Dispatch

namespace Conductor

variable (c : Conductor)

def push (speaker : Speaker) (text : String) : Conductor :=
  { c with conversation := c.conversation ++ [⟨speaker, text⟩] }

def request (later : List ConvMessage) : Conductor :=
  { c with requests := c.requests ++ [⟨history c.conversation, later⟩] }

def hear (text : Option String) : Conductor := { c with replies := c.replies ++ text.toList }

end Conductor

inductive ClassifierDecision where
  | informational
  | hotPatch
  | scopeChange
  | newPlan
  deriving DecidableEq, Repr

structure ClassifierTask where
  title : String
  description : String
  deps : List String

structure ClassifierOutput where
  decision : ClassifierDecision
  reason : String
  task : Option ClassifierTask

/-- The configuration of the session, with the parser for the classifier's JSON. -/
structure Setup where
  host : Host
  cfg : OrchConfig
  decrypt : Decrypt
  plansDir : String
  parseClassifier : String → Option ClassifierOutput

/-- The id and the time of a new plan, and how its save goes. -/
structure Draft where
  planId : PlanId
  createdAt : String
  fate : SaveFate

/-- The replies of a tool loop, what `save_to_host` returns to a call of a reply, and the plan
that may be drafted before the tools of a reply are called. -/
structure TurnScript where
  round : ℕ → Except String AgentRoundResult
  saved : ℕ → ℕ → Json
  draft : ℕ → Draft

structure MessageScript where
  digest : String
  classifier : Except String String
  rand : ℕ
  turn : TurnScript
  draft : Draft
  draftReply : Except String String

structure Issue where
  severity : String
  section_ : String
  message : String

inductive Verdict where
  | approve
  | revise (issues : List Issue)
  | block (reason : String)

structure ReviseScript where
  snapshot : Except String Unit
  reply : Except String String
  fate : SaveFate

inductive ConductorReply where
  | chat (reply : String)
  | buildDispatched (planId : PlanId) (reply : String)
  | planDrafted (planId : PlanId) (version : ℕ)
  | hotPatched (task : TaskNode) (targetPlan : PlanId)
  | scopeChanged (newPlanId : PlanId)

namespace Setup

variable (setup : Setup)

def conductorModel : Except String LlmConfig := setup.cfg.llmFor setup.decrypt .conductor

def conversationId : String := "stdin-session"

def draftRecord (draft : Draft) (userMsg reply : String) (tasks : TaskGraph) : PlanRecord :=
  { newDraft draft.planId draft.createdAt userMsg conversationId with
    overview := reply
    taskGraph := tasks }

def savePlan (p : PlanRecord) (fate : SaveFate) (c : Conductor) : Conductor × Except String PlanId :=
  match setup.host.save p fate c.disk with
  | (disk, .ok ()) => ({ c with disk := disk }, .ok p.planId)
  | (disk, .error e) => ({ c with disk := disk }, .error e)

/-- One call of the model with the history; its reply becomes the next entry. -/
def ask (c : Conductor) (reply : Except String String) : Conductor × Except String String :=
  match setup.conductorModel with
  | .error e => (c, .error e)
  | .ok _ =>
    match reply with
    | .error e => (c.request [], .error e)
    | .ok response => (((c.request []).hear (some response)).push .model response, .ok response)

def draftPlan (c : Conductor) (userMsg : String) (reply : Except String String) (draft : Draft) :
    Conductor × Except String PlanId :=
  match setup.ask c reply with
  | (c, .error e) => (c, .error e)
  | (c, .ok response) =>
    setup.savePlan (draftRecord draft userMsg response (draftTasks setup.host.toml response))
      draft.fate c

def draftPlanFromResponse (c : Conductor) (response userMsg : String) (draft : Draft) :
    Conductor × Except String PlanId :=
  setup.savePlan (draftRecord draft userMsg response (responseTasks setup.host.toml response))
    draft.fate c

def noPlanText : String := "no plan has been drafted yet — draft a plan first"

def startedJson (planId : PlanId) : Json :=
  .object [("started".toList, .bool true), ("plan_id".toList, .string planId.toList),
    ("note".toList, .string ("Captain dispatched; build is now running. Progress will stream to " ++
      "the UI.").toList),
    ("warning".toList, .string ("DO NOT call start_build again — the captain is already running. " ++
      "Your NEXT response must be ONLY plain text confirming the build has started. No more tool " ++
      "calls.").toList)]

def executeStartBuild (c : Conductor) : Conductor × Json :=
  match c.currentPlan with
  | none => (c, Orchestration.errorJson noPlanText)
  | some planId =>
    ({ c with dispatches := c.dispatches ++ [⟨planId, c.replies⟩] }, startedJson planId)

def executeConductorTool (script : TurnScript) (i index : ℕ) (tc : ToolCall) (c : Conductor) :
    Conductor × Json :=
  if tc.name = "start_build" then executeStartBuild c
  else if tc.name = "save_to_host" then (c, script.saved i index)
  else (c, Orchestration.errorJson ("unknown tool: " ++ tc.name))

def executeTools (script : TurnScript) (i : ℕ) : ℕ → List ToolCall → Conductor →
    Conductor × List (ToolCall × Json)
  | _, [], c => (c, [])
  | index, tc :: rest, c =>
    let (c₁, result) := executeConductorTool script i index tc c
    let (c₂, results) := executeTools script i (index + 1) rest c₁
    (c₂, (tc, result) :: results)

/-- `result["started"].as_bool() == Some(true)` -/
def started (result : Json) : Bool :=
  match result.get "started".toList with
  | some (.bool true) => true
  | _ => false

def dispatchedIn (results : List (ToolCall × Json)) : Bool :=
  results.any fun r => r.1.name = "start_build" && started r.2

def turnRounds : ℕ := 5

def keepText (finalText : String) : Option String → String
  | some text => if text = "" then finalText else text
  | none => finalText

/-- A plan is drafted before the tools are called if `start_build` is among them and there is
no plan yet. -/
def draftsInline (c : Conductor) (finalText : String) (calls : List ToolCall) : Bool :=
  hasPlanTag finalText && c.currentPlan.isNone && calls.any (fun tc => tc.name = "start_build")

def lastText (c : Conductor) : String := (c.conversation.getLast?.map Entry.text).getD ""

def draftInline (c : Conductor) (finalText : String) (calls : List ToolCall) (draft : Draft) :
    Conductor :=
  if draftsInline c finalText calls then
    match setup.draftPlanFromResponse c finalText (lastText c) draft with
    | (c, .ok planId) => { c with currentPlan := some planId }
    | (c, .error _) => c
  else c

def finishTurn (c : Conductor) (finalText : String) (dispatched : Bool) :
    Conductor × Except String (String × Bool) :=
  (c.push .model finalText, .ok (finalText, dispatched))

/-- The tool loop from reply `i` on, with the number of replies it may still ask for. -/
def turnLoop (script : TurnScript) : ℕ → ℕ → Conductor → List ConvMessage → String →
    Conductor × Except String (String × Bool)
  | 0, _, c, _, finalText => finishTurn c finalText false
  | n + 1, i, c, later, finalText =>
    match script.round i with
    | .error e => (c.request later, .error e)
    | .ok round =>
      let c₁ := (c.request later).hear round.text
      let finalText := keepText finalText round.text
      if round.toolCalls.isEmpty then finishTurn c₁ finalText false
      else
        let c₂ := setup.draftInline c₁ finalText round.toolCalls (script.draft i)
        let (c₃, results) := executeTools script i 0 round.toolCalls c₂
        if dispatchedIn results then finishTurn c₃ finalText true
        else
          turnLoop script n (i + 1) c₃
            (later ++ [.assistantToolCalls round.toolCalls,
              .toolResults (results.map fun r => (r.1.id, r.1.name, r.2))]) finalText

def conversationalTurn (c : Conductor) (script : TurnScript) :
    Conductor × Except String (String × Bool) :=
  match setup.conductorModel with
  | .error e => (c, .error e)
  | .ok _ => setup.turnLoop script turnRounds 0 c [] ""

def classifyMessage (reply : Except String String) : Except String ClassifierOutput :=
  match setup.cfg.llmFor setup.decrypt .crew with
  | .error e => .error e
  | .ok _ =>
    match reply with
    | .error e => .error e
    | .ok response =>
      .ok ((setup.parseClassifier response).getD
        ⟨.informational, "failed to parse classifier output", none⟩)

def hotPatchTask (rand : ℕ) (info : ClassifierTask) : TaskNode where
  id := "h" ++ toString rand
  title := info.title
  description := info.description
  deps := info.deps
  modelTier := .fast
  toolBudget := 10
  filesHint := []

/-- The entries that a user message adds before anything is asked. -/
def receive (c : Conductor) (msg digest : String) : Conductor :=
  if digest = "" then c.push .user msg
  else (c.push .user msg).push .system ("[System] " ++ digest)

def chatTurn (c : Conductor) (script : TurnScript) : Conductor × Except String ConductorReply :=
  match setup.conversationalTurn c script with
  | (c, .error e) => (c, .error e)
  | (c, .ok (reply, true)) => (c, .ok (.chat (stripToolCalls reply)))
  | (c, .ok (reply, false)) => (c, .ok (.chat reply))

def adopt (drafted : Conductor × Except String PlanId) (reply : PlanId → ConductorReply) :
    Conductor × Except String ConductorReply :=
  match drafted with
  | (c, .error e) => (c, .error e)
  | (c, .ok planId) => ({ c with currentPlan := some planId }, .ok (reply planId))

def buildReply (c : Conductor) (reply : String) : ConductorReply :=
  match c.currentPlan with
  | some planId => .buildDispatched planId
      (String.ofList (trim (stripPlanFromReply (stripToolCalls reply)).toList))
  | none => .chat (stripToolCalls reply)

/-- The normal flow: a turn, and a plan if its text has one and no captain was dispatched. -/
def normalTurn (c : Conductor) (msg : String) (script : MessageScript) :
    Conductor × Except String ConductorReply :=
  match setup.conversationalTurn c script.turn with
  | (c, .error e) => (c, .error e)
  | (c, .ok (reply, true)) => (c, .ok (buildReply c reply))
  | (c, .ok (reply, false)) =>
    if hasPlanTag reply then
      adopt (setup.draftPlanFromResponse c reply msg script.draft) fun planId => .planDrafted planId 1
    else (c, .ok (.chat (stripToolCalls reply)))

def handleUserMessage (c : Conductor) (msg : String) (script : MessageScript) :
    Conductor × Except String ConductorReply :=
  let c := receive c msg script.digest
  match c.currentPlan with
  | none => setup.normalTurn c msg script
  | some oldPlan =>
    match setup.classifyMessage script.classifier with
    | .error _ => setup.normalTurn c msg script
    | .ok output =>
      match output.decision with
      | .informational => setup.chatTurn c script.turn
      | .hotPatch =>
        match output.task with
        | some info => (c, .ok (.hotPatched (hotPatchTask script.rand info) oldPlan))
        | none => setup.normalTurn c msg script
      | .scopeChange => adopt (setup.draftPlan c msg script.draftReply script.draft) .scopeChanged
      | .newPlan =>
        adopt (setup.draftPlan c msg script.draftReply script.draft) fun planId =>
          .planDrafted planId 1

def issueLine (i : Issue) : String := "- [" ++ i.severity ++ "] " ++ i.section_ ++ ": " ++ i.message

def fixPrompt (issues : List Issue) : String :=
  "The critic found these issues with the plan:\n" ++ "\n".intercalate (issues.map issueLine) ++
    "\n\nPlease fix these issues and update the plan."

def handleCriticVerdict (c : Conductor) (planId : PlanId) (verdict : Verdict)
    (script : ReviseScript) : Conductor × Except String Unit :=
  match verdict with
  | .approve => (c, .ok ())
  | .block _ => (c, .ok ())
  | .revise issues =>
    match setup.host.load c.disk setup.plansDir planId with
    | .error e => (c, .error e)
    | .ok plan =>
      match script.snapshot with
      | .error e => (c, .error e)
      | .ok () =>
        match setup.ask (c.push .system (fixPrompt issues)) script.reply with
        | (c, .error e) => (c, .error e)
        | (c, .ok response) =>
          match setup.host.save { plan with
            currentVersion := plan.currentVersion + 1, overview := response } script.fate c.disk with
          | (disk, result) => ({ c with disk := disk }, result)

def completionText (builtSummary : String) : String :=
  "[System] The build finished. The output is staged in the session sandbox and has NOT been " ++
    "saved to the user's machine yet. What was built:\n" ++ builtSummary ++
    "\n\nTell the user briefly what you built, then ask whether they want to change or add " ++
    "anything, or save it to their project. Do not claim it has been saved."

def announceCompletion (c : Conductor) (builtSummary : String) (reply : Except String String) :
    Conductor × Except String String :=
  match setup.ask (c.push .system (completionText builtSummary)) reply with
  | (c, .error e) => (c, .error e)
  | (c, .ok response) => (c, .ok (stripToolCalls response))

def taskRecord (task : TaskNode) (draft : Draft) : PlanRecord :=
  { newDraft draft.planId draft.createdAt task.title conversationId with
    overview := "Follow-up task: " ++ task.title
    taskGraph := [task] }

def materializeTaskAsPlan (c : Conductor) (task : TaskNode) (draft : Draft) :
    Conductor × Except String PlanId :=
  match setup.savePlan (taskRecord task draft) draft.fate c with
  | (c, .error e) => (c, .error e)
  | (c, .ok planId) => ({ c with currentPlan := some planId }, .ok planId)

end Setup

/-- An operation of the Conductor with all that comes with it. -/
inductive Op where
  | userMessage (msg : String) (script : MessageScript)
  | criticVerdict (planId : PlanId) (verdict : Verdict) (script : ReviseScript)
  | announceCompletion (builtSummary : String) (reply : Except String String)
  | materializeTask (task : TaskNode) (draft : Draft)

def Setup.step (setup : Setup) (c : Conductor) : Op → Conductor
  | .userMessage msg script => (setup.handleUserMessage c msg script).1
  | .criticVerdict planId verdict script => (setup.handleCriticVerdict c planId verdict script).1
  | .announceCompletion builtSummary reply => (setup.announceCompletion c builtSummary reply).1
  | .materializeTask task draft => (setup.materializeTaskAsPlan c task draft).1

def Conductor.start (disk : Disk) : Conductor := ⟨[], none, disk, [], [], []⟩

end Mowis.Planning
