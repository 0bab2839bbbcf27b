import Mowis.Review.Reviewer

/-!
# The wire protocol of the executor

`mowis-protocol/src/lib.rs`, and the two sorts of replies that the host tells apart
(`is_terminal` of `mowis-host/src/transport/mod.rs`).

A line on the wire is an envelope in JSON.  How a line is read is a parameter of what follows.
-/

namespace Mowis.Executor

open Mowis.Review (Json)

def protocolVersion : ℕ := 2

structure ResourceLimits where
  ramBytes : Option ℕ
  cpuMillis : Option ℕ
  deriving DecidableEq, Repr

structure SandboxSpec where
  sandboxId : Option String
  imageRootfs : Option String
  limits : ResourceLimits
  deriving DecidableEq, Repr

structure SandboxInfo where
  sandboxId : String
  rootPath : String
  deriving DecidableEq, Repr

structure ExecRequest where
  sandboxId : Option String
  cmd : String
  args : List String
  env : List (String × String)
  deriving DecidableEq, Repr

inductive Payload where
  -- from the host to the guest
  | ping
  | version
  | shutdown
  | createSandbox (spec : SandboxSpec)
  | destroySandbox (sandboxId : String)
  | listSandboxes
  | exec (req : ExecRequest)
  | invokeTool (sandboxId tool : String) (input : Json)
  | createAgentOverlay (parentSandboxId agentId : String) (limits : ResourceLimits)
  | mergeAgentOverlay (parentSandboxId agentId : String)
  | discardAgentOverlay (parentSandboxId agentId : String)
  | invokeToolAsAgent (parentSandboxId agentId tool : String) (input : Json) (callerTier : String)
  | uploadCodebase (sandboxId archiveB64 : String) (fileCount : ℕ)
  | healthCheck
  | sendInput (sandboxId agentId input : String)
  | interactiveStatus (sandboxId agentId : String)
  -- from the guest to the host
  | agentOverlayCreated (agentId : String)
  | agentOverlayMerged (agentId : String) (changedPaths : List String)
  | agentOverlayDiscarded (agentId : String)
  | codebaseUploaded (sandboxId : String) (fileCount : ℕ)
  | healthOk (uptimeSecs sandboxCount : ℕ)
  | interactivePrompt (agentId prompt : String) (waiting : Bool)
  | pong (version : String) (protocol : ℕ)
  | sandboxCreated (sandboxId : String)
  | sandboxDestroyed (sandboxId : String)
  | sandboxList (sandboxes : List SandboxInfo)
  | stdout (data : String)
  | stderr (data : String)
  | exitCode (code : ℤ)
  | toolResult (output : Json)
  | error (message : String)

structure Envelope where
  id : ℕ
  payload : Payload

namespace Payload

def isRequest : Payload → Bool
  | ping | version | shutdown | createSandbox _ | destroySandbox _ | listSandboxes | exec _
  | invokeTool .. | createAgentOverlay .. | mergeAgentOverlay .. | discardAgentOverlay ..
  | invokeToolAsAgent .. | uploadCodebase .. | healthCheck | sendInput .. | interactiveStatus .. =>
    true
  | _ => false

/-- `is_terminal`: the payloads after which the host expects no other. -/
def isTerminal : Payload → Bool
  | exitCode _ | toolResult _ | error _ | pong .. | sandboxCreated _ | sandboxDestroyed _
  | sandboxList _ | agentOverlayCreated _ | agentOverlayMerged .. | agentOverlayDiscarded _
  | codebaseUploaded .. | healthOk .. | interactivePrompt .. => true
  | _ => false

def isChunk : Payload → Bool
  | stdout _ | stderr _ => true
  | _ => false

end Payload

/-- `Envelope::from_line`: an envelope, or why the line is none. -/
abbrev Decoder := String → Except String Envelope

end Mowis.Executor
