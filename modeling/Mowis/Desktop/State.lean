import Mowis.Lib.HashMap

/-!
# The state of the desktop application

`mowis-desktop/src-tauri/src/state.rs` and the types of `types.rs`: the sessions, their history and
usage, and the *live* fields, which belong to whatever session is current.

The clock is read once an operation.  The order in which the tasks of a hash map are written into a
record is the run's.
-/

namespace Mowis.Desktop

open Mowis.Lib

inductive TaskStatus where
  | pending
  | running
  | complete
  | failed
  deriving DecidableEq, Repr

structure Task where
  id : String
  description : String
  sandbox : Option String
  status : TaskStatus
  startedAt : Option ℕ
  completedAt : Option ℕ
  files : List String
  summary : Option String
  views : List String
  deriving DecidableEq

inductive ChatMessage where
  | user (content : String) (ts : ℕ)
  | agent (content : String) (streaming : Bool) (ts : ℕ)
  | system (content : String) (ts : ℕ)
  | plan (sandboxes : List String) (taskCount agentCount : ℕ) (mode : String) (ts : ℕ)
  | error (content : String) (ts : ℕ)
  deriving DecidableEq

/-! ### Sessions -/

abbrev SessionId := String

structure SessionSummary where
  id : SessionId
  prompt : String
  status : String
  startedAt : ℕ
  completedAt : Option ℕ
  taskCount : ℕ
  tasksDone : ℕ
  tokensTotal : ℕ
  durationSecs : Option ℕ
  mode : Option String
  deriving DecidableEq

structure SessionRecord where
  summary : SessionSummary
  messages : List ChatMessage
  tasks : List Task
  tokensTotal : ℕ
  toolCallsTotal : ℕ
  deriving DecidableEq

structure UsageRecord where
  sessionId : SessionId
  promptShort : String
  ts : ℕ
  taskCount : ℕ
  tokens : ℕ
  toolCalls : ℕ
  durationSecs : ℕ
  status : String
  deriving DecidableEq

/-- The settings that commands and turns look at. -/
structure Config where
  mode : String
  provider : String
  apiKey : String
  sandboxEnabled : Bool
  osSecurity : Bool
  deriving DecidableEq

def Config.default : Config := ⟨"auto", "gemini", "", true, false⟩

structure PersistedState where
  config : Config
  currentSessionId : Option SessionId
  sessions : HashMap SessionId SessionRecord
  sessionHistory : List SessionSummary
  usageHistory : List UsageRecord

def PersistedState.default : PersistedState := ⟨.default, none, ∅, [], []⟩

structure AppState where
  config : Config
  currentSessionId : Option SessionId
  messages : List ChatMessage
  tasks : HashMap String Task
  sessions : HashMap SessionId SessionRecord
  sessionHistory : List SessionSummary
  usageHistory : List UsageRecord
  daemonConnected : Bool
  tokensTotal : ℕ
  toolCallsTotal : ℕ
  workspacePath : Option String
  workspaceFiles : List String

def tasksById (tasks : List Task) : HashMap String Task :=
  tasks.foldl (fun m task => m.insert task.id task) ∅

def taskValues (order : IterOrder Task) (tasks : HashMap String Task) : List Task :=
  order.arrange (tasks.entries.map Sigma.snd)

def taskCounts (tasks : HashMap String Task) : ℕ × ℕ :=
  let values := tasks.entries.map Sigma.snd
  (values.length, values.countP fun task => task.status = .complete)

def promptFromMessages : List ChatMessage → String
  | [] => ""
  | .user content _ :: _ => content
  | _ :: rest => promptFromMessages rest

/-- `prompt.chars().take(80)`. -/
def shorten (prompt : String) : String := String.ofList (prompt.toList.take 80)

/-- Replace the first entry with the key of `x`, or append `x`. -/
def upsert {α κ : Type} [DecidableEq κ] (key : α → κ) (x : α) : List α → List α
  | [] => [x]
  | y :: rest => if key y = key x then x :: rest else y :: upsert key x rest

def upsertHistory (history : List SessionSummary) (summary : SessionSummary) :
    List SessionSummary :=
  upsert SessionSummary.id summary history

def sortByKey {α : Type} (key : α → ℕ) (xs : List α) : List α :=
  xs.insertionSort fun a b => key a ≤ key b

namespace AppState

/-- `AppState::new`: the live fields are those of the current session's record. -/
def new (persisted : PersistedState) : AppState :=
  let current := persisted.currentSessionId.bind persisted.sessions.lookup
  { config := persisted.config
    currentSessionId := persisted.currentSessionId
    messages := (current.map SessionRecord.messages).getD []
    tasks := (current.map fun r => tasksById r.tasks).getD ∅
    sessions := persisted.sessions
    sessionHistory := persisted.sessionHistory
    usageHistory := persisted.usageHistory
    daemonConnected := false
    tokensTotal := (current.map SessionRecord.tokensTotal).getD 0
    toolCallsTotal := (current.map SessionRecord.toolCallsTotal).getD 0
    workspacePath := none
    workspaceFiles := [] }

variable (s : AppState)

/-- What `save_state` writes. -/
def persisted : PersistedState where
  config := s.config
  currentSessionId := s.currentSessionId
  sessions := s.sessions
  sessionHistory := s.sessionHistory
  usageHistory := s.usageHistory

def freshRecord (now : ℕ) (id : SessionId) : SessionRecord where
  summary :=
    { id := id
      prompt := shorten (promptFromMessages s.messages)
      status := "running"
      startedAt := now
      completedAt := none
      taskCount := (taskCounts s.tasks).1
      tasksDone := (taskCounts s.tasks).2
      tokensTotal := 0
      durationSecs := none
      mode := none }
  messages := []
  tasks := []
  tokensTotal := 0
  toolCallsTotal := 0

def updatedRecord (now : ℕ) (order : IterOrder Task) (status : Option String)
    (completedAt : Option (Option ℕ)) (r : SessionRecord) : SessionRecord where
  summary :=
    { r.summary with
      prompt := shorten (promptFromMessages s.messages)
      status := status.getD r.summary.status
      completedAt := completedAt.getD r.summary.completedAt
      taskCount := (taskCounts s.tasks).1
      tasksDone := (taskCounts s.tasks).2
      tokensTotal := s.tokensTotal
      durationSecs := if status.isSome then some (now - r.summary.startedAt)
        else r.summary.durationSecs }
  messages := s.messages
  tasks := taskValues order s.tasks
  tokensTotal := s.tokensTotal
  toolCallsTotal := s.toolCallsTotal

/-- `sync_current_session`, up to the call of `save_state`. -/
def syncCurrentSession (now : ℕ) (order : IterOrder Task) (status : Option String)
    (completedAt : Option (Option ℕ)) : AppState :=
  match s.currentSessionId with
  | none => s
  | some id =>
    let r := s.updatedRecord now order status completedAt
      ((s.sessions.lookup id).getD (s.freshRecord now id))
    { s with
      sessions := s.sessions.insert id r
      sessionHistory := sortByKey SessionSummary.startedAt (upsertHistory s.sessionHistory r.summary) }

/-- `record_usage_for_current`. -/
def recordUsageForCurrent (now : ℕ) (status : String) : AppState :=
  match s.currentSessionId with
  | none => s
  | some id =>
    match s.sessions.lookup id with
    | none => s
    | some r =>
      let usage : UsageRecord :=
        { sessionId := id
          promptShort := r.summary.prompt
          ts := r.summary.completedAt.getD now
          taskCount := r.summary.taskCount
          tokens := r.tokensTotal
          toolCalls := r.toolCallsTotal
          durationSecs := now - r.summary.startedAt
          status := status }
      { s with
        usageHistory := sortByKey UsageRecord.ts (upsert UsageRecord.sessionId usage s.usageHistory) }

variable {s} {now : ℕ} {order : IterOrder Task} {status : Option String}
  {completedAt : Option (Option ℕ)}

theorem lookup_syncCurrentSession {id : SessionId} (h : s.currentSessionId = some id) :
    (s.syncCurrentSession now order status completedAt).sessions.lookup id =
      some (s.updatedRecord now order status completedAt
        ((s.sessions.lookup id).getD (s.freshRecord now id))) := by
  rw [syncCurrentSession, h]
  exact AList.lookup_insert _

theorem lookup_syncCurrentSession_ne {id : SessionId} (h : s.currentSessionId ≠ some id) :
    (s.syncCurrentSession now order status completedAt).sessions.lookup id =
      s.sessions.lookup id := by
  rw [syncCurrentSession]
  split
  · rfl
  · rename_i id' hid
    refine AList.lookup_insert_ne ?_
    rintro rfl
    exact h hid

end AppState

end Mowis.Desktop
