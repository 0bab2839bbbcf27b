import Mowis.Desktop.Telling

/-!
# One turn of a conversation

`run_orch_turn` in `mowis-desktop/src-tauri/src/bridge_loop.rs`, with `start_orch_session` and
`send_message` of `orch_bridge.rs`: a turn takes the stored orchestration of its session, or stores
a new one, and hands the prompt to its conductor.

What the conductor replies is looked at by nobody: of its end, a turn tells its errors only.
-/

namespace Mowis.Desktop

open Mowis.Orchestration (OrchConfig)
open Mowis.Planning

/-- The orchestration stored for a session.  Its conductor works in `workspace`, and takes commands
as long as its task has not ended. -/
structure OrchSession where
  sessionId : SessionId
  workspace : String
  accepting : Bool
  deriving DecidableEq

/-- `StartOrchestration`; of the repository's context, the path. -/
structure TurnRequest where
  sessionId : SessionId
  prompt : String
  config : Config
  repoContext : Option String
  deriving DecidableEq

/-- What the world answers to a turn: the conversion of the settings, the virtual machine, and the
start of conductor and critic. -/
structure TurnFate where
  orchConfig : Except String OrchConfig
  boot : Except String Unit
  started : Except String Unit

/-- What becomes of a message sent to a conductor that takes commands. -/
inductive Reception where
  | handled (setup : Setup) (conductor : Conductor) (script : MessageScript) (voice : Voice)
  /-- The conductor's task ends with the message unanswered. -/
  | dropped (deeds : List Deed)

inductive TurnEnd where
  /-- The turn itself tells `OrchestrationFailed`. -/
  | failed (err : String)
  | replied (reply : Except String ConductorReply)

structure Machine where
  dataDir : String
  canonicalize : String → Option String

namespace Machine

variable (m : Machine)

def workspaceOf (sessionId : SessionId) (repoContext : Option String) : String :=
  let workspace := match repoContext with
    | some projectPath => projectPath
    | none => m.dataDir ++ "/MowisAI/sessions/" ++ sessionId ++ "/workspace"
  (m.canonicalize workspace).getD workspace

/-- The stored orchestration is taken if it is for the session of the turn; else one is made. -/
def acquire (stored : Option OrchSession) (req : TurnRequest) (fate : TurnFate) :
    Except String OrchSession :=
  match fate.orchConfig with
  | .error e => .error ("Config error: " ++ e)
  | .ok _ =>
    match stored.filter fun s => s.sessionId = req.sessionId with
    | some session => .ok session
    | none =>
      match if req.config.osSecurity then fate.boot else .ok () with
      | .error e => .error ("OS Security VM boot failed: " ++ e)
      | .ok () =>
        match fate.started with
        | .error e => .error ("Failed to start orchestration: " ++ e)
        | .ok () => .ok ⟨req.sessionId, m.workspaceOf req.sessionId req.repoContext, true⟩

end Machine

/-- `orch_bridge::send_message`, with the error as the turn tells it. -/
def OrchSession.sendMessage (session : OrchSession) (prompt : String) (reception : Reception) :
    OrchSession × TurnEnd × List Deed :=
  if session.accepting then
    match reception with
    | .handled setup c script voice =>
      (session, .replied (setup.handleUserMessage c prompt script).2,
        messageDeeds setup c prompt script voice)
    | .dropped deeds =>
      ({ session with accepting := false },
        .failed "Orchestration error: conductor reply channel closed", deeds)
  else (session, .failed "Orchestration error: conductor task has shut down", [])

/-- `run_orch_turn`: what is stored afterwards, the end of the turn, and the deeds of its
conductor. -/
def Machine.runOrchTurn (m : Machine) (stored : Option OrchSession) (req : TurnRequest)
    (fate : TurnFate) (reception : Reception) : Option OrchSession × TurnEnd × List Deed :=
  match m.acquire stored req fate with
  | .error e => (stored, .failed e, [])
  | .ok session =>
    let (session, result) := session.sendMessage req.prompt reception
    (some session, result)

end Mowis.Desktop
