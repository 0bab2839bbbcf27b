import Mowis.Executor.Protocol
import Mowis.Lib.Utf8

/-!
# How the executor serves a request

`dispatch`, `create_sandbox`, `exec` and `send_error` of `mowis-executor/src/server.rs`.

A request is served by a task that runs between the tasks of other requests.  `Prog` is what
is left of a task: the next thing it does to the executor, and how it goes on with the result.
-/

namespace Mowis.Executor

open Mowis.Lib
open Mowis.Review (Json)

/-- An absolute path by its components. -/
abbrev PathBuf := List String

def PathBuf.display (p : PathBuf) : String := "/" ++ "/".intercalate p

structure OverlayDirs where
  upper : PathBuf
  work : PathBuf
  deriving DecidableEq, Repr

/-- A sandbox.  No two have the same root, which is a temporary directory of its own. -/
structure Sandbox where
  id : String
  root : PathBuf
  overlayDirs : Option OverlayDirs
  limits : ResourceLimits
  deriving DecidableEq, Repr

abbrev Registry := HashMap String Sandbox

/-- What a task does apart from sending: the accesses to the registry, the blocking calls, and
the statics of the interactive shell. -/
inductive Op where
  | get (key : String)
  | containsKey (key : String)
  | insert (key : String) (sandbox : Sandbox)
  | remove (key : String)
  | entries
  | len
  | create (requestedId imageRootfs : Option String) (limits : ResourceLimits)
  | createAgentOverlay (parent : Sandbox) (agentId : String) (limits : ResourceLimits)
  | mergeOverlay (parent overlay : Sandbox)
  | invoke (sandbox : Sandbox) (tool : String) (input : Json)
  | uploadCodebase (sandbox : Sandbox) (archiveB64 : String)
  | runCommand (sandbox : Sandbox) (cmd : String) (args : List String)
      (env : List (String × String))
  | output (cmd : String) (args : List String) (env : List (String × String))
  | interactiveStdin
  | interactiveWaiting
  | interactivePrompt

/-- The exit code of a command and what it printed. -/
abbrev CommandResult := Except String (ℤ × List UInt8 × List UInt8)

/-- What an operation gives back; `remove` says whether the key was there. -/
abbrev Op.Ret : Op → Type
  | get _ => Option Sandbox
  | containsKey _ => Bool
  | insert .. => Unit
  | remove _ => Bool
  | entries => List (String × Sandbox)
  | len => ℕ
  | create .. => Except String Sandbox
  | createAgentOverlay .. => Except String Sandbox
  | mergeOverlay .. => Except String (List String)
  | invoke .. => Except String Json
  | uploadCodebase .. => Except String ℕ
  | runCommand .. => CommandResult
  | output .. => CommandResult
  | interactiveStdin => Bool
  | interactiveWaiting => Bool
  | interactivePrompt => String

/-- What is left of a task. -/
inductive Prog where
  | done
  /-- The whole process ends. -/
  | exit
  | send (env : Envelope) (next : Prog)
  | op (o : Op) (next : o.Ret → Prog)

def sendError (id : ℕ) (message : String) : Prog := .send ⟨id, .error message⟩ .done

def noSandbox (sandboxId : String) : String := s!"no sandbox `{sandboxId}`"

def noAgentOverlay (agentId : String) : String := s!"no agent overlay `{agentId}`"

def overlayKey (parentId agentId : String) : String := parentId ++ ":" ++ agentId

def withSandbox (id : ℕ) (key message : String) (next : Sandbox → Prog) : Prog :=
  .op (.get key) fun
    | none => sendError id message
    | some sandbox => next sandbox

def pong (id : ℕ) : Prog := .send ⟨id, .pong "0.1.0" protocolVersion⟩ .done

def createSandbox (id : ℕ) (spec : SandboxSpec) : Prog :=
  .op (.create spec.sandboxId spec.imageRootfs spec.limits) fun
    | .error e => sendError id e
    | .ok sb => .op (.insert sb.id sb) fun _ => .send ⟨id, .sandboxCreated sb.id⟩ .done

def sendOutput (data : List UInt8) (env : String → Envelope) (next : Prog) : Prog :=
  if data.isEmpty then next else .send (env (String.ofList (lossyChars data))) next

def execReply (id : ℕ) : CommandResult → Prog
  | .ok (code, stdout, stderr) =>
    sendOutput stdout (fun data => ⟨id, .stdout data⟩) <|
      sendOutput stderr (fun data => ⟨id, .stderr data⟩) <| .send ⟨id, .exitCode code⟩ .done
  | .error e => sendError id e

def exec (id : ℕ) (req : ExecRequest) : Prog :=
  match req.sandboxId with
  | some sid =>
    withSandbox id sid (noSandbox sid) fun sb =>
      .op (.runCommand sb req.cmd req.args req.env) (execReply id)
  | none => .op (.output req.cmd req.args req.env) (execReply id)

def toolReply (id : ℕ) : Except String Json → Prog
  | .ok output => .send ⟨id, .toolResult output⟩ .done
  | .error e => sendError id e

def invokeTool (id : ℕ) (sb : Sandbox) (tool : String) (input : Json) : Prog :=
  .op (.invoke sb tool input) (toolReply id)

def createAgentOverlay (id : ℕ) (parentId agentId : String) (limits : ResourceLimits) : Prog :=
  withSandbox id parentId (noSandbox parentId) fun parent =>
    .op (.createAgentOverlay parent agentId limits) fun
      | .ok overlay =>
        .op (.insert overlay.id overlay) fun _ => .send ⟨id, .agentOverlayCreated agentId⟩ .done
      | .error e => sendError id e

def mergeReply (id : ℕ) (parentId agentId : String) : Except String (List String) → Prog
  | .ok changedPaths =>
    .op (.remove (overlayKey parentId agentId)) fun _ =>
      .send ⟨id, .agentOverlayMerged agentId changedPaths⟩ .done
  | .error e => sendError id e

def mergeOf (id : ℕ) (parentId agentId : String) (parent : Sandbox) : Prog :=
  withSandbox id (overlayKey parentId agentId) (noAgentOverlay agentId) fun overlay =>
    .op (.mergeOverlay parent overlay) (mergeReply id parentId agentId)

def mergeAgentOverlay (id : ℕ) (parentId agentId : String) : Prog :=
  withSandbox id parentId (noSandbox parentId) (mergeOf id parentId agentId)

def removeEntry (id : ℕ) (key message : String) (reply : Payload) : Prog :=
  .op (.remove key) fun
    | true => .send ⟨id, reply⟩ .done
    | false => sendError id message

def uploadCodebase (id : ℕ) (sandboxId archiveB64 : String) : Prog :=
  withSandbox id sandboxId (noSandbox sandboxId) fun sb =>
    .op (.uploadCodebase sb archiveB64) fun
      | .ok count => .send ⟨id, .codebaseUploaded sandboxId count⟩ .done
      | .error e => sendError id e

def inputSent : Json :=
  .object [("success".toList, .bool true), ("message".toList, .string "input sent".toList)]

/-- The input goes to whatever command is running; the overlay is only asked for. -/
def sendInput (id : ℕ) (sandboxId agentId : String) : Prog :=
  .op (.containsKey (overlayKey sandboxId agentId)) fun
    | true =>
      .op .interactiveStdin fun
        | true => .send ⟨id, .toolResult inputSent⟩ .done
        | false => sendError id "no interactive command running"
    | false => sendError id (noAgentOverlay agentId)

def interactiveStatus (id : ℕ) (sandboxId agentId : String) : Prog :=
  .op (.containsKey (overlayKey sandboxId agentId)) fun
    | true =>
      .op .interactiveWaiting fun waiting => .op .interactivePrompt fun prompt =>
        .send ⟨id, .interactivePrompt agentId prompt waiting⟩ .done
    | false => sendError id (noAgentOverlay agentId)

/-- The task of a request.  Payloads that a guest sends are ignored. -/
def dispatch (env : Envelope) : Prog :=
  match env.payload with
  | .ping | .version => pong env.id
  | .shutdown => .send ⟨env.id, .exitCode 0⟩ .exit
  | .createSandbox spec => createSandbox env.id spec
  | .destroySandbox sandboxId =>
    removeEntry env.id sandboxId (noSandbox sandboxId) (.sandboxDestroyed sandboxId)
  | .listSandboxes =>
    .op .entries fun listing =>
      .send ⟨env.id, .sandboxList (listing.map fun e => ⟨e.1, e.2.root.display⟩)⟩ .done
  | .exec req => exec env.id req
  | .invokeTool sandboxId tool input =>
    withSandbox env.id sandboxId (noSandbox sandboxId) fun sb => invokeTool env.id sb tool input
  | .createAgentOverlay parentId agentId limits =>
    createAgentOverlay env.id parentId agentId limits
  | .mergeAgentOverlay parentId agentId => mergeAgentOverlay env.id parentId agentId
  | .discardAgentOverlay parentId agentId =>
    removeEntry env.id (overlayKey parentId agentId) (noAgentOverlay agentId)
      (.agentOverlayDiscarded agentId)
  | .invokeToolAsAgent parentId agentId tool input _ =>
    withSandbox env.id (overlayKey parentId agentId) (noAgentOverlay agentId) fun sb =>
      invokeTool env.id sb tool input
  | .uploadCodebase sandboxId archiveB64 _ => uploadCodebase env.id sandboxId archiveB64
  | .healthCheck => .op .len fun count => .send ⟨env.id, .healthOk 0 count⟩ .done
  | .sendInput sandboxId agentId _ => sendInput env.id sandboxId agentId
  | .interactiveStatus sandboxId agentId => interactiveStatus env.id sandboxId agentId
  | _ => .done

/-- A task that sends chunks and then one payload that ends the answer, all with the id, and
goes on with `fin`. -/
inductive Answers (id : ℕ) (fin : Prog) : Prog → Prop
  | last {p : Payload} (hp : p.isTerminal = true) : Answers id fin (.send ⟨id, p⟩ fin)
  | chunk {p : Payload} {next : Prog} (hp : p.isChunk = true) (hnext : Answers id fin next) :
      Answers id fin (.send ⟨id, p⟩ next)
  | op {o : Op} {next : o.Ret → Prog} (hnext : ∀ r, Answers id fin (next r)) :
      Answers id fin (.op o next)

def afterAnswer : Payload → Prog
  | .shutdown => .exit
  | _ => .done

namespace Answers

variable {id : ℕ}

theorem sendError (message : String) : Answers id .done (sendError id message) := .last rfl

theorem withSandbox {key message : String} {next : Sandbox → Prog}
    (h : ∀ sandbox, Answers id .done (next sandbox)) : Answers id .done (withSandbox id key message next) := by
  refine .op fun r => ?_
  cases r with
  | none => exact .sendError message
  | some sandbox => exact h sandbox

theorem removeEntry {key message : String} {p : Payload} (hp : p.isTerminal = true) :
    Answers id .done (removeEntry id key message p) := by
  refine .op fun r => ?_
  cases r with
  | true => exact .last hp
  | false => exact .sendError message

theorem sendOutput {data : List UInt8} {p : String → Payload} (hp : ∀ s, (p s).isChunk = true)
    {next : Prog} (h : Answers id .done next) : Answers id .done (sendOutput data (fun s => ⟨id, p s⟩) next) := by
  unfold Executor.sendOutput
  split
  · exact h
  · exact .chunk (hp _) h

theorem execReply (result : CommandResult) : Answers id .done (execReply id result) := by
  cases result with
  | error e => exact .sendError e
  | ok result =>
    refine .sendOutput (fun _ => rfl) (.sendOutput (fun _ => rfl) (.last rfl))

theorem exec (req : ExecRequest) : Answers id .done (exec id req) := by
  unfold Executor.exec
  split
  · exact .withSandbox fun sb => .op .execReply
  · exact .op .execReply

theorem createSandbox (spec : SandboxSpec) : Answers id .done (createSandbox id spec) := by
  refine .op fun r => ?_
  cases r with
  | error e => exact .sendError e
  | ok sb => exact .op fun _ => .last rfl

theorem invokeTool (sb : Sandbox) (tool : String) (input : Json) :
    Answers id .done (invokeTool id sb tool input) := by
  refine .op fun r => ?_
  cases r with
  | error e => exact .sendError e
  | ok output => exact .last rfl

theorem createAgentOverlay (parentId agentId : String) (limits : ResourceLimits) :
    Answers id .done (createAgentOverlay id parentId agentId limits) := by
  refine .withSandbox fun parent => .op fun r => ?_
  cases r with
  | error e => exact .sendError e
  | ok overlay => exact .op fun _ => .last rfl

theorem mergeAgentOverlay (parentId agentId : String) :
    Answers id .done (mergeAgentOverlay id parentId agentId) := by
  refine .withSandbox fun parent => .withSandbox fun overlay => .op fun r => ?_
  cases r with
  | error e => exact .sendError e
  | ok changedPaths => exact .op fun _ => .last rfl

theorem uploadCodebase (sandboxId archiveB64 : String) :
    Answers id .done (uploadCodebase id sandboxId archiveB64) := by
  refine .withSandbox fun sb => .op fun r => ?_
  cases r with
  | error e => exact .sendError e
  | ok count => exact .last rfl

theorem sendInput (sandboxId agentId : String) : Answers id .done (sendInput id sandboxId agentId) := by
  refine .op fun r => ?_
  cases r with
  | false => exact .sendError _
  | true =>
    refine .op fun r => ?_
    cases r with
    | false => exact .sendError _
    | true => exact .last rfl

theorem interactiveStatus (sandboxId agentId : String) :
    Answers id .done (interactiveStatus id sandboxId agentId) := by
  refine .op fun r => ?_
  cases r with
  | false => exact .sendError _
  | true => exact .op fun waiting => .op fun prompt => .last rfl

end Answers

/-- **The task of a request sends a whole answer.** -/
theorem answers_dispatch {env : Envelope} (h : env.payload.isRequest = true) :
    Answers env.id (afterAnswer env.payload) (dispatch env) := by
  obtain ⟨id, payload⟩ := env
  cases payload with
  | ping | version => exact .last rfl
  | shutdown => exact .last rfl
  | createSandbox spec => exact .createSandbox spec
  | destroySandbox sandboxId => exact .removeEntry rfl
  | listSandboxes => exact .op fun listing => .last rfl
  | exec req => exact .exec req
  | invokeTool sandboxId tool input => exact .withSandbox fun sb => .invokeTool sb tool input
  | createAgentOverlay parentId agentId limits =>
    exact .createAgentOverlay parentId agentId limits
  | mergeAgentOverlay parentId agentId => exact .mergeAgentOverlay parentId agentId
  | discardAgentOverlay parentId agentId => exact .removeEntry rfl
  | invokeToolAsAgent parentId agentId tool input callerTier =>
    exact .withSandbox fun sb => .invokeTool sb tool input
  | uploadCodebase sandboxId archiveB64 fileCount => exact .uploadCodebase sandboxId archiveB64
  | healthCheck => exact .op fun count => .last rfl
  | sendInput sandboxId agentId input => exact .sendInput sandboxId agentId
  | interactiveStatus sandboxId agentId => exact .interactiveStatus sandboxId agentId
  | _ => cases h

theorem dispatch_of_not_request {env : Envelope} (h : env.payload.isRequest = false) :
    dispatch env = .done := by
  obtain ⟨id, payload⟩ := env
  cases payload <;> first | rfl | cases h

end Mowis.Executor
