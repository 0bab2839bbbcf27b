import Mowis.Desktop.State
import Mowis.Review.Conflict

/-!
# The bridge of the desktop application

`mowis-desktop/src-tauri/src/orch_bridge.rs` and `bridge_loop.rs`: the events of an orchestration
are translated one by one into events of the bridge, and these change the live fields of the
application and the record of the session that is current.
-/

namespace Mowis.Desktop

open Mowis.Lib
open Mowis.Review (Overflow addU32)

inductive ConductorReplyKind where
  | chat
  | planDrafted
  | planRevised
  | hotPatched
  | scopeChanged
  | awaiting
  | error
  deriving DecidableEq, Repr

/-- The events of the bus.  A verdict comes as the text by which it is shown, the status of a
captain as its numbers of tasks in flight and done. -/
inductive OrchEvent where
  | planDrafted (planId : String) (version : ℕ)
  | planRevised (planId : String) (version : ℕ)
  | planSuperseded (oldPlanId newPlanId : String)
  | planApproved (planId : String)
  | conductorReply (kind : ConductorReplyKind) (text : String)
  | criticReviewing (planId : String) (version : ℕ)
  | criticVerdict (planId : String) (version : ℕ) (verdict : String)
  | userApproved (planId : String)
  | userOverride (planId : String)
  | userCancelled (planId : String)
  | userMessageReceived (text : String)
  | captainStarted (planId sandboxId : String)
  | crewStarted (planId taskId agentId : String)
  | crewToolSummary (agentId text toolName : String) (success : Bool)
  | crewDone (planId agentId summary : String)
  | crewFailed (planId agentId reason : String)
  | mergeStarted (planId agentId : String)
  | mergeCompleted (planId agentId : String)
  | taskInjected (planId taskId reason : String)
  | planCompleted (planId : String)
  | planFailed (planId reason : String)
  | captainStatusUpdate (inFlight completed : ℕ)
  | conversationEnded
  | captainShutdown (sandboxId : String)
  | streamToken (text : String)
  | streamDone
  | tokensUsed (agentId : String) (inputTokens outputTokens : UInt32)

/-- The changes of files are shown only, by their paths. -/
inductive BridgeEvent where
  | daemonConnected
  | daemonDisconnected
  | taskAdded (task : Task)
  | taskUpdated (id : String) (status : TaskStatus)
  | agentChunk (chunk : String)
  | agentMessage (content : String)
  | planReady (sandboxes : List String) (taskCount agentCount : ℕ) (mode : String)
  | orchestrationComplete
  | orchestrationFailed (err : String)
  | simulationTick (tasksDone activeAgents tokensDelta : ℕ)
  | fileChanges (paths : List String)
  | toolCall (workerId : ℕ) (toolName argsPreview : String)
  | toolResult (workerId : ℕ) (toolName : String) (success : Bool) (preview : String)
  | layerProgress (layer : ℕ) (message : String)
  | llmThinking (agentId taskDescription : String)
  | agentStatusChanged (agentId taskId status sandbox : String)
  | routingDecision (mode planningModel executionModel : String)
  | workspaceReady (projectPath : String) (changedFiles : List String)

def startedTask (now : ℕ) (planId taskId : String) : Task where
  id := taskId
  description := "Task " ++ taskId
  sandbox := some planId
  status := .running
  startedAt := some now
  completedAt := none
  files := []
  summary := none
  views := []

/-- `dispatch`: the bridge events sent, none where the `u32` sum of the tokens panics. -/
def dispatch (mode : Overflow) (now : ℕ) : OrchEvent → Option (List BridgeEvent)
  | .streamToken text => some [.agentChunk text]
  | .streamDone => some []
  | .conductorReply .error text => some [.orchestrationFailed text]
  | .conductorReply _ text => if text = "" then some [] else some [.agentMessage text]
  | .planDrafted planId version => some [.planReady [planId] 0 0 ("v" ++ toString version)]
  | .planRevised planId version =>
    some [.planReady [planId] 0 0 ("v" ++ toString version ++ " (revised)")]
  | .criticVerdict _ version verdict =>
    some [.layerProgress 2 ("Critic (v" ++ toString version ++ "): " ++ verdict)]
  | .captainStarted planId sandboxId =>
    some [.agentStatusChanged "captain" planId "running" sandboxId]
  | .crewStarted planId taskId agentId =>
    some [.taskAdded (startedTask now planId taskId),
      .agentStatusChanged agentId taskId "running" planId]
  | .crewToolSummary agentId text toolName success =>
    some [.toolResult 0 toolName success ("[" ++ agentId ++ "] " ++ text)]
  | .crewDone _ agentId _ =>
    some [.taskUpdated agentId .complete, .agentStatusChanged agentId "" "complete" ""]
  | .crewFailed _ agentId reason =>
    some [.taskUpdated agentId .failed, .agentStatusChanged agentId "" "failed" reason]
  | .mergeCompleted _ agentId => some [.toolCall 0 "merge_overlay" agentId]
  | .planCompleted _ => some [.orchestrationComplete]
  | .planFailed _ reason => some [.orchestrationFailed reason]
  | .tokensUsed _ inputTokens outputTokens =>
    (addU32 mode inputTokens outputTokens).map fun total => [.simulationTick 0 1 total.toNat]
  | .captainStatusUpdate inFlight completed => some [.simulationTick completed inFlight 0]
  | .planApproved _ | .planSuperseded _ _ | .criticReviewing _ _ | .userApproved _
  | .userOverride _ | .userCancelled _ | .userMessageReceived _ | .mergeStarted _ _
  | .taskInjected _ _ _ | .conversationEnded | .captainShutdown _ => some []

def ChatMessage.settle : ChatMessage → ChatMessage
  | .agent content _ ts => .agent content false ts
  | m => m

def ChatMessage.extend (chunk : String) : ChatMessage → Option ChatMessage
  | .agent content true ts => some (.agent (content ++ chunk) true ts)
  | _ => none

/-- `msgs.last_mut()` is settled. -/
def settleLast (messages : List ChatMessage) : List ChatMessage :=
  match messages.getLast? with
  | none => messages
  | some last => messages.dropLast ++ [last.settle]

/-- A chunk extends the last message if that is streaming, and starts a new one otherwise. -/
def addChunk (now : ℕ) (chunk : String) (messages : List ChatMessage) : List ChatMessage :=
  match messages.getLast?.bind (ChatMessage.extend chunk) with
  | some last => messages.dropLast ++ [last]
  | none => messages ++ [.agent chunk true now]

def Task.setStatus (now : ℕ) (status : TaskStatus) (t : Task) : Task :=
  match status with
  | .running => { t with status := status, startedAt := some now }
  | .complete | .failed => { t with status := status, completedAt := some now }
  | .pending => { t with status := status }

/-- What `OrchestrationComplete` does to a task. -/
def Task.finish (now : ℕ) (t : Task) : Task :=
  if t.status = .running then { t with status := .complete, completedAt := some now } else t

/-- The status an event stands for, and the time of completion it sets; none where the record is
not synchronised. -/
def BridgeEvent.status (now : ℕ) : BridgeEvent → Option (String × Option (Option ℕ))
  | .planReady _ _ _ _ | .taskAdded _ | .taskUpdated _ _ | .agentChunk _ | .agentMessage _
  | .simulationTick _ _ _ => some ("running", none)
  | .orchestrationComplete => some ("done", some (some now))
  | .orchestrationFailed _ => some ("error", some (some now))
  | _ => none

def BridgeEvent.usage : BridgeEvent → Option String
  | .orchestrationComplete => some "done"
  | .orchestrationFailed _ => some "error"
  | _ => none

namespace AppState

variable (s : AppState)

def updateTask (now : ℕ) (id : String) (status : TaskStatus) : AppState :=
  match s.tasks.lookup id with
  | some t => { s with tasks := s.tasks.insert id (t.setStatus now status) }
  | none => s

def edit (now : ℕ) : BridgeEvent → AppState
  | .daemonConnected => { s with daemonConnected := true }
  | .daemonDisconnected => { s with daemonConnected := false }
  | .planReady sandboxes taskCount agentCount mode =>
    { s with messages := s.messages ++ [.plan sandboxes taskCount agentCount mode now] }
  | .taskAdded task => { s with tasks := s.tasks.insert task.id task }
  | .taskUpdated id status => s.updateTask now id status
  | .agentChunk chunk => { s with messages := addChunk now chunk s.messages }
  | .agentMessage content =>
    { s with messages := settleLast s.messages ++ [.agent content false now] }
  | .orchestrationComplete =>
    { s with
      messages := settleLast s.messages
      tasks := HashMap.mapValues (Task.finish now) s.tasks }
  | .orchestrationFailed err => { s with messages := s.messages ++ [.error err now] }
  | .simulationTick _ _ tokensDelta =>
    { s with
      tokensTotal := s.tokensTotal + tokensDelta
      toolCallsTotal := s.toolCallsTotal + 1 }
  | .workspaceReady projectPath changedFiles =>
    { s with workspacePath := some projectPath, workspaceFiles := changedFiles }
  | .fileChanges _ | .toolCall _ _ _ | .toolResult _ _ _ _ | .layerProgress _ _
  | .llmThinking _ _ | .agentStatusChanged _ _ _ _ | .routingDecision _ _ _ => s

/-- `handle_bridge_event`, but for what is shown. -/
def handleBridgeEvent (now : ℕ) (order : IterOrder Task) (event : BridgeEvent) : AppState :=
  let edited := s.edit now event
  match event.status now with
  | none => edited
  | some (status, completedAt) =>
    let synced := edited.syncCurrentSession now order (some status) completedAt
    match event.usage with
    | none => synced
    | some status => synced.recordUsageForCurrent now status

end AppState

/-- The application behind the task that forwards the events of an orchestration: a panic of
`dispatch` ends that task. -/
structure Line where
  app : AppState
  alive : Bool

namespace Line

variable (l : Line) (mode : Overflow) (now : ℕ) (order : IterOrder Task)

def handleAll (app : AppState) (events : List BridgeEvent) : AppState :=
  events.foldl (fun app event => app.handleBridgeEvent now order event) app

def deliver (event : OrchEvent) : Line :=
  if l.alive then
    match dispatch mode now event with
    | some events => { l with app := handleAll now order l.app events }
    | none => { l with alive := false }
  else l

end Line

namespace AppState

variable {s : AppState} {now : ℕ} {order : IterOrder Task} {event : BridgeEvent}

@[simp] theorem currentSessionId_edit : (s.edit now event).currentSessionId = s.currentSessionId := by
  cases event with
  | taskUpdated id status =>
    show (s.updateTask now id status).currentSessionId = _
    unfold updateTask
    split <;> rfl
  | _ => rfl

@[simp] theorem sessions_edit : (s.edit now event).sessions = s.sessions := by
  cases event with
  | taskUpdated id status =>
    show (s.updateTask now id status).sessions = _
    unfold updateTask
    split <;> rfl
  | _ => rfl

theorem sessions_recordUsageForCurrent (status : String) :
    (s.recordUsageForCurrent now status).sessions = s.sessions := by
  unfold recordUsageForCurrent
  split
  · rfl
  · split <;> rfl

theorem sessions_handleBridgeEvent :
    (s.handleBridgeEvent now order event).sessions =
      match event.status now with
      | none => s.sessions
      | some (status, completedAt) =>
        ((s.edit now event).syncCurrentSession now order (some status) completedAt).sessions := by
  unfold handleBridgeEvent
  cases event.status now with
  | none => exact sessions_edit
  | some p =>
    dsimp only
    cases event.usage with
    | none => rfl
    | some status => exact sessions_recordUsageForCurrent status

theorem lookup_handleBridgeEvent_ne {id : SessionId} (h : s.currentSessionId ≠ some id) :
    (s.handleBridgeEvent now order event).sessions.lookup id = s.sessions.lookup id := by
  rw [sessions_handleBridgeEvent]
  cases event.status now with
  | none => rfl
  | some p =>
    dsimp only
    rw [lookup_syncCurrentSession_ne (by rw [currentSessionId_edit]; exact h), sessions_edit]

end AppState

end Mowis.Desktop
