import Mowis.Lib.Execution
import Mowis.Lib.HashMap

/-!
# The registry of the runtime

The runtime asks agentd for sandboxes and containers over a socket and keeps a record of both.
-/

namespace Mowis.Runtime

open Mowis.Lib

abbrev SandboxId := String

abbrev ContainerId := String

structure SandboxSpec where
  sandboxId : SandboxId
  osImage : String
  ramBytes : ℕ
  cpuMillis : ℕ
  initPackages : List String
  initialContainers : ℕ

structure CreateSandboxParams where
  sandboxId : SandboxId
  osImage : String
  ramBytes : ℕ
  cpuMillis : ℕ
  packages : List String

/-- `cpu_millis as u32` keeps the low bits. -/
def SandboxSpec.createParams (spec : SandboxSpec) : CreateSandboxParams :=
  ⟨spec.sandboxId, spec.osImage, spec.ramBytes, spec.cpuMillis % 2 ^ 32, spec.initPackages⟩

structure CreateSandboxResponse where
  sandboxId : SandboxId
  path : String
  pid : ℕ

structure CreateContainerParams where
  sandboxId : SandboxId
  containerId : ContainerId

structure CreateContainerResponse where
  containerId : ContainerId
  sandboxId : SandboxId
  pid : ℕ
  rootfsPath : String

inductive ControlAction where
  | pause
  | resume

structure ContainerControlParams where
  sandboxId : SandboxId
  containerId : ContainerId
  action : ControlAction

/-- What becomes of a request: agentd does it and answers; it does it, but the client gives up or
cannot read the answer; or it is not done.  The text is the client's error. -/
inductive Outcome (α : Type) where
  | answered (response : α)
  | lost (response : α) (e : String)
  | refused (e : String)

/-- The outcomes of the requests of one loop, by the number of the turn. -/
structure Answers where
  createSandbox : CreateSandboxParams → Outcome CreateSandboxResponse
  createContainer : ℕ → CreateContainerParams → Outcome CreateContainerResponse

inductive RuntimeError where
  | sandboxCreationFailed (e : String)
  | containerCreationFailed (e : String)
  | resourceUnavailable (e : String)
  | sandboxNotFound (e : String)
  | containerNotFound (e : String)
  | invalidState (e : String)
  deriving DecidableEq

inductive ContainerStatus where
  | creating
  | ready
  | active
  | paused
  | terminated

/-- The status as `{:?}` prints it. -/
def ContainerStatus.debug : ContainerStatus → String
  | .creating => "Creating"
  | .ready => "Ready"
  | .active => "Active"
  | .paused => "Paused"
  | .terminated => "Terminated"

structure ManagedContainer where
  id : ContainerId
  status : ContainerStatus
  createdAt : ℕ
  pausedAt : Option ℕ
  agentdPid : Option ℕ
  agentdRootfs : Option String

structure ManagedSandbox where
  id : SandboxId
  spec : SandboxSpec
  hubAgentPid : Option ℕ
  containers : HashMap ContainerId ManagedContainer
  createdAt : ℕ
  totalRamUsed : ℕ
  totalCpuUsed : ℕ
  agentdSandboxPath : String
  agentdSandboxPid : ℕ

abbrev Registry := HashMap SandboxId ManagedSandbox

structure ContainerHandle where
  containerId : ContainerId
  sandboxId : SandboxId
  status : ContainerStatus

structure SandboxHandle where
  sandboxId : SandboxId
  socketPath : String
  containers : List ContainerHandle

/-- What happened to a sandbox of agentd since it was created: the ids of the containers asked
for, those that were created with the ids agentd gave them, and the ids in the handles that the
caller of the runtime was given.  Newest first. -/
structure Sandbox where
  asked : List ContainerId
  created : List (ContainerId × ContainerId)
  handles : List ContainerId

def Sandbox.new : Sandbox := ⟨[], [], []⟩

abbrev Agentd := SandboxId → Option Sandbox

namespace Agentd

def createSandbox (agentd : Agentd) (id : SandboxId) : Agentd :=
  Function.update agentd id (some ((agentd id).getD .new))

def destroySandbox (agentd : Agentd) (id : SandboxId) : Agentd :=
  Function.update agentd id none

def ask (agentd : Agentd) (p : CreateContainerParams) : Agentd :=
  Function.update agentd p.sandboxId ((agentd p.sandboxId).map fun s =>
    { s with asked := p.containerId :: s.asked })

def createContainer (agentd : Agentd) (p : CreateContainerParams) (r : CreateContainerResponse) :
    Agentd :=
  Function.update agentd p.sandboxId ((agentd p.sandboxId).map fun s =>
    { s with created := (p.containerId, r.containerId) :: s.created })

def hand (agentd : Agentd) (h : ContainerHandle) : Agentd :=
  Function.update agentd h.sandboxId ((agentd h.sandboxId).map fun s =>
    { s with handles := h.containerId :: s.handles })

end Agentd

/-- `format!("{}-{}", sandbox_id, i)`. -/
def containerId (sandboxId : SandboxId) (i : ℕ) : ContainerId := sandboxId ++ "-" ++ i.repr

theorem containerId_injective (sandboxId : SandboxId) : (containerId sandboxId).Injective := by
  intro i j h
  have hchars := congrArg String.toList h
  simp only [containerId, String.toList_append] at hchars
  exact Nat.repr_injective (String.toList_inj.mp (List.append_cancel_left hchars))

def managedContainer (r : CreateContainerResponse) (now : ℕ) : ManagedContainer where
  id := r.containerId
  status := .ready
  createdAt := now
  pausedAt := none
  agentdPid := some r.pid
  agentdRootfs := some r.rootfsPath

/-- The loop over the initial containers of a sandbox that is not yet in the registry. -/
def initialContainers (sandboxId : SandboxId) (answers : Answers) (now : ℕ) :
    List ℕ → Agentd → HashMap ContainerId ManagedContainer →
      Agentd × Except RuntimeError (HashMap ContainerId ManagedContainer)
  | [], agentd, containers => (agentd, .ok containers)
  | i :: rest, agentd, containers =>
    let params : CreateContainerParams := ⟨sandboxId, containerId sandboxId i⟩
    let asked := agentd.ask params
    match answers.createContainer i params with
    | .refused e => (asked, .error (.containerCreationFailed e))
    | .lost r e => (asked.createContainer params r, .error (.containerCreationFailed e))
    | .answered r =>
      initialContainers sandboxId answers now rest (asked.createContainer params r)
        (containers.insert params.containerId (managedContainer r now))

def containerHandles (order : IterOrder ManagedContainer) (sandboxId : SandboxId)
    (containers : HashMap ContainerId ManagedContainer) : List ContainerHandle :=
  (order.arrange (containers.entries.map Sigma.snd)).map fun c => ⟨c.id, sandboxId, c.status⟩

/-- The loop over the specifications, each with the outcomes of the requests made for it. -/
def provisionLoop (order : IterOrder ManagedContainer) (now : ℕ) :
    List (SandboxSpec × Answers) → Registry → Agentd → List SandboxHandle →
      Registry × Agentd × Except RuntimeError (List SandboxHandle)
  | [], sbMap, agentd, handles => (sbMap, agentd, .ok handles)
  | (spec, answers) :: rest, sbMap, agentd, handles =>
    match answers.createSandbox spec.createParams with
    | .refused e => (sbMap, agentd, .error (.sandboxCreationFailed e))
    | .lost _ e =>
      (sbMap, agentd.createSandbox spec.sandboxId, .error (.sandboxCreationFailed e))
    | .answered r =>
      match initialContainers spec.sandboxId answers now (List.range spec.initialContainers)
          (agentd.createSandbox spec.sandboxId) ∅ with
      | (agentd', .error e) => (sbMap, agentd', .error e)
      | (agentd', .ok containers) =>
        let managed : ManagedSandbox :=
          { id := spec.sandboxId, spec, hubAgentPid := none, containers, createdAt := now
            totalRamUsed := 0, totalCpuUsed := 0
            agentdSandboxPath := r.path, agentdSandboxPid := r.pid }
        provisionLoop order now rest (sbMap.insert spec.sandboxId managed) agentd'
          (handles ++ [⟨spec.sandboxId, r.path ++ "/agent.sock",
            containerHandles order spec.sandboxId containers⟩])

structure ProvisioningReady where
  requestId : String
  sandboxes : List SandboxHandle
  timestamp : ℕ

def provisionSandboxes (order : IterOrder ManagedContainer) (now : ℕ) (requestId : String)
    (specs : List (SandboxSpec × Answers)) (sbMap : Registry) (agentd : Agentd) :
    Registry × Agentd × Except RuntimeError ProvisioningReady :=
  match provisionLoop order now specs sbMap agentd [] with
  | (sbMap', agentd', .error e) => (sbMap', agentd', .error e)
  | (sbMap', agentd', .ok sandboxes) => (sbMap', agentd', .ok ⟨requestId, sandboxes, now⟩)

/-- The loop adds the number of its turn to a length that grows with every turn. -/
def additionalLoop (sandboxId : SandboxId) (answers : Answers) (now : ℕ) :
    List ℕ → Agentd → HashMap ContainerId ManagedContainer → List ContainerHandle →
      Agentd × HashMap ContainerId ManagedContainer × Except RuntimeError (List ContainerHandle)
  | [], agentd, containers, handles => (agentd, containers, .ok handles)
  | i :: rest, agentd, containers, handles =>
    let nextIndex := containers.keys.length + i
    let params : CreateContainerParams := ⟨sandboxId, containerId sandboxId nextIndex⟩
    let asked := agentd.ask params
    match answers.createContainer i params with
    | .refused e => (asked, containers, .error (.containerCreationFailed e))
    | .lost r e =>
      (asked.createContainer params r, containers, .error (.containerCreationFailed e))
    | .answered r =>
      additionalLoop sandboxId answers now rest (asked.createContainer params r)
        (containers.insert params.containerId (managedContainer r now))
        (handles ++ [⟨params.containerId, sandboxId, .ready⟩])

def requestAdditionalContainers (sandboxId : SandboxId) (count : ℕ) (answers : Answers) (now : ℕ)
    (sbMap : Registry) (agentd : Agentd) :
    Registry × Agentd × Except RuntimeError (List ContainerHandle) :=
  match sbMap.lookup sandboxId with
  | none => (sbMap, agentd, .error (.sandboxNotFound sandboxId))
  | some managed =>
    match additionalLoop sandboxId answers now (List.range count) agentd managed.containers [] with
    | (agentd', containers, result) =>
      (sbMap.insert sandboxId { managed with containers }, agentd', result)

/-- A container is found, and its entry replaced when the request for it is answered. -/
def controlContainer (sandboxId : SandboxId) (cid : ContainerId)
    (control : ManagedContainer → Except RuntimeError ManagedContainer) (sbMap : Registry) :
    Registry × Except RuntimeError Unit :=
  match sbMap.lookup sandboxId with
  | none => (sbMap, .error (.sandboxNotFound sandboxId))
  | some managed =>
    match managed.containers.lookup cid with
    | none => (sbMap, .error (.containerNotFound cid))
    | some container =>
      match control container with
      | .error e => (sbMap, .error e)
      | .ok container' =>
        (sbMap.insert sandboxId
          { managed with containers := managed.containers.insert cid container' }, .ok ())

def pauseContainer (sandboxId : SandboxId) (cid : ContainerId)
    (answer : ContainerControlParams → Outcome Unit) (now : ℕ) (sbMap : Registry) :
    Registry × Except RuntimeError Unit :=
  controlContainer sandboxId cid (fun container =>
    match container.status with
    | .active | .ready =>
      match answer ⟨sandboxId, cid, .pause⟩ with
      | .answered _ => .ok { container with status := .paused, pausedAt := some now }
      | .lost _ e | .refused e => .error (.invalidState ("Failed to pause: " ++ e))
    | status =>
      .error (.invalidState ("Cannot pause container in state " ++ status.debug))) sbMap

def resumeContainer (sandboxId : SandboxId) (cid : ContainerId)
    (answer : ContainerControlParams → Outcome Unit) (sbMap : Registry) :
    Registry × Except RuntimeError Unit :=
  controlContainer sandboxId cid (fun container =>
    match container.status with
    | .paused =>
      match answer ⟨sandboxId, cid, .resume⟩ with
      | .answered _ => .ok { container with status := .active, pausedAt := none }
      | .lost _ e | .refused e => .error (.invalidState ("Failed to resume: " ++ e))
    | status =>
      .error (.invalidState ("Cannot resume container in state " ++ status.debug))) sbMap

def destroySandbox (sandboxId : SandboxId) (answer : SandboxId → Outcome Unit) (sbMap : Registry)
    (agentd : Agentd) : Registry × Agentd × Except RuntimeError Unit :=
  match answer sandboxId with
  | .refused e => (sbMap, agentd, .error (.sandboxNotFound ("Failed to destroy: " ++ e)))
  | .lost _ e =>
    (sbMap, agentd.destroySandbox sandboxId,
      .error (.sandboxNotFound ("Failed to destroy: " ++ e)))
  | .answered _ =>
    match sbMap.lookup sandboxId with
    | none => (sbMap, agentd.destroySandbox sandboxId, .error (.sandboxNotFound sandboxId))
    | some _ => (sbMap.erase sandboxId, agentd.destroySandbox sandboxId, .ok ())

end Mowis.Runtime
