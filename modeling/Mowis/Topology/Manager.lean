import Mowis.Lib.Execution
import Mowis.Scheduling.Model
import Mowis.Topology.Workspace

/-!
# The topology manager and its pool of sleeping containers

`agentd/src/orchestration/sandbox_topology.rs` over the containers that
`agentd/src/sandbox.rs` keeps.  A container has a workspace of its own from the moment it is
created; what an agent's tools do to it is any function on workspaces.
-/

namespace Mowis.Topology

open Mowis.Lib Mowis.Review
open Mowis.Scheduling (SandboxName)

abbrev AgentId := String

abbrev ContainerId := String

abbrev SandboxId := String

/-- What the containers of a sandbox start from. -/
structure SandboxLayer where
  /-- The project, or its scope, that the workspace of every new container is an overlay of. -/
  projectRoot : Option Workspace
  /-- The workspace in the sandbox's own root, which new containers have otherwise. -/
  workspace : Workspace
  /-- The host has the directory `sandbox-<id>/root/workspace` with this workspace. -/
  hostVisible : Bool

/-- The workspace `create_container` gives a container. -/
def SandboxLayer.freshWorkspace (layer : SandboxLayer) : Workspace :=
  layer.projectRoot.getD layer.workspace

/-- The base with a diff applied by `git apply` on the host. -/
def hostApply (git : Git) (layer : SandboxLayer) (diff : Text) : Option SandboxLayer :=
  if layer.hostVisible then
    (git.apply diff layer.workspace.files).map fun files =>
      { layer with workspace := { layer.workspace with files := files } }
  else none

/-- What can go wrong beside `git apply` itself. -/
structure ApplyFate where
  /-- The patch file is written on the host. -/
  writes : Bool
  /-- An error of the requests of the second strategy. -/
  socket : Option Text

/-- The second strategy applies the diff in a container that is destroyed afterwards, and returns
`Ok` whatever came of it. -/
def applyDiffToSandbox (git : Git) (fate : ApplyFate) (layer : SandboxLayer) (diff : Text) :
    Except Text SandboxLayer :=
  match if fate.writes then hostApply git layer diff else none with
  | some layer' => .ok layer'
  | none =>
    match fate.socket with
    | some e => .error e
    | none => .ok layer

/-- Which commands of the clean-up do their work. -/
structure SleepFate where
  resets : Bool
  cleans : Bool
  adds : Bool

/-- `git reset --hard HEAD`, `git clean -fd` and `git add -A`. -/
def putToSleep (git : Git) (fate : SleepFate) (w : Workspace) : Workspace :=
  let w := if fate.resets then w.resetHard else w
  let w := if fate.cleans then git.clean w else w
  if fate.adds then git.add w else w

structure SleepingContainer where
  agentId : AgentId
  containerId : ContainerId
  sandboxId : SandboxId

structure TopologyManager where
  sandboxes : HashMap SandboxName SandboxId
  containers : HashMap AgentId ContainerId
  agentSandboxes : HashMap AgentId SandboxName
  sleepingContainers : HashMap SandboxName (List SleepingContainer)

/-- A container of the daemon. -/
structure Container where
  sandbox : SandboxId
  workspace : Workspace

/-- The manager, and what the daemon keeps. -/
structure World where
  manager : TopologyManager
  layers : HashMap SandboxId SandboxLayer
  containers : HashMap ContainerId Container
  /-- The identifiers of containers given out so far; the daemon counts them up. -/
  issued : Finset ContainerId

namespace World

def start : World where
  manager := { sandboxes := ∅, containers := ∅, agentSandboxes := ∅, sleepingContainers := ∅ }
  layers := ∅
  containers := ∅
  issued := ∅

variable (c : World)

def pool (name : SandboxName) : List SleepingContainer :=
  HashMap.bucket c.manager.sleepingContainers name

def bind (agent : AgentId) (cid : ContainerId) (name : SandboxName) : World :=
  { c with manager := { c.manager with
      containers := c.manager.containers.insert agent cid
      agentSandboxes := c.manager.agentSandboxes.insert agent name } }

def unbind (agent : AgentId) : World :=
  { c with manager := { c.manager with
      containers := c.manager.containers.erase agent
      agentSandboxes := c.manager.agentSandboxes.erase agent } }

def setPool (name : SandboxName) (scs : List SleepingContainer) : World :=
  { c with manager := { c.manager with
      sleepingContainers := c.manager.sleepingContainers.insert name scs } }

theorem pool_setPool (name n : SandboxName) (scs : List SleepingContainer) :
    (c.setPool name scs).pool n = if n = name then scs else c.pool n :=
  HashMap.bucket_insert c.manager.sleepingContainers name n scs

def inContainer (cid : ContainerId) (effect : Workspace → Workspace) : World :=
  match c.containers.lookup cid with
  | none => c
  | some k =>
    { c with containers := c.containers.insert cid { k with workspace := effect k.workspace } }

def destroy (cids : List ContainerId) : World :=
  { c with containers := cids.foldl (fun m cid => m.erase cid) c.containers }

@[simp] theorem inContainer_manager (cid : ContainerId) (effect : Workspace → Workspace) :
    (c.inContainer cid effect).manager = c.manager := by
  rw [inContainer]
  split <;> rfl

@[simp] theorem inContainer_issued (cid : ContainerId) (effect : Workspace → Workspace) :
    (c.inContainer cid effect).issued = c.issued := by
  rw [inContainer]
  split <;> rfl

theorem lookup_inContainer_ne {cid cid' : ContainerId} (hne : cid' ≠ cid)
    (effect : Workspace → Workspace) :
    (c.inContainer cid effect).containers.lookup cid' = c.containers.lookup cid' := by
  rw [inContainer]
  split
  · rfl
  · exact AList.lookup_insert_ne hne

theorem lookup_inContainer_self {cid : ContainerId} {effect : Workspace → Workspace}
    {k : Container} (h : (c.inContainer cid effect).containers.lookup cid = some k) :
    ∃ k₀, c.containers.lookup cid = some k₀ ∧ k.workspace = effect k₀.workspace := by
  rw [inContainer] at h
  split at h
  · next hnone =>
    rw [hnone] at h
    cases h
  · next k₀ hk₀ =>
    replace h : (c.containers.insert cid
      { k₀ with workspace := effect k₀.workspace }).lookup cid = some k := h
    rw [AList.lookup_insert] at h
    exact ⟨k₀, hk₀, by rw [← Option.some.inj h]⟩

theorem lookup_destroy {cids : List ContainerId} {cid : ContainerId} {k : Container}
    (h : (c.destroy cids).containers.lookup cid = some k) : c.containers.lookup cid = some k := by
  replace h : (cids.foldl (fun m cid => m.erase cid) c.containers).lookup cid = some k := h
  induction cids using List.reverseRecOn with
  | nil => exact h
  | append_singleton xs x ih =>
    rw [List.foldl_append, List.foldl_cons, List.foldl_nil, HashMap.lookup_erase_eq_ite] at h
    split at h
    · cases h
    · exact ih h

/-- `create_agent_layer`, past the lookup of the sandbox. -/
def createLayer (git : Git) (fate : CreateFate) (sid : SandboxId) (layer : SandboxLayer)
    (name : SandboxName) (agent : AgentId) (cid : ContainerId) : World :=
  { c with
    containers := c.containers.insert cid
      ⟨sid, createAgentLayer git fate layer.freshWorkspace⟩
    issued := insert cid c.issued }.bind agent cid name

def wake (sc : SleepingContainer) (rest : List SleepingContainer) (name : SandboxName)
    (agent : AgentId) : World :=
  (c.setPool name rest).bind agent sc.containerId name

/-- `wake_or_create_agent_layer`. -/
def wakeOrCreate (git : Git) (fate : CreateFate) (name : SandboxName) (agent : AgentId)
    (cid : ContainerId) : Option World :=
  match c.pool name with
  | sc :: rest => some (c.wake sc rest name agent)
  | [] =>
    match c.manager.sandboxes.lookup name with
    | none => none
    | some sid => (c.layers.lookup sid).map fun layer =>
        c.createLayer git fate sid layer name agent cid

/-- `sleep_agent_layer`: an unknown agent is no error; for an unknown sandbox the container is
forgotten. -/
def sleepAgentLayer (git : Git) (fate : SleepFate) (agent : AgentId) (name : SandboxName) : World :=
  match c.manager.containers.lookup agent with
  | none => c
  | some cid =>
    match c.manager.sandboxes.lookup name with
    | none => c.unbind agent
    | some sid =>
      let c := (c.unbind agent).inContainer cid (putToSleep git fate)
      c.setPool name (c.pool name ++ [⟨agent, cid, sid⟩])

/-- `destroy_agent_layer`; the container stays when its sandbox is not known any more. -/
def destroyAgentLayer (agent : AgentId) (cid : ContainerId) : World :=
  match (c.manager.agentSandboxes.lookup agent).bind c.manager.sandboxes.lookup with
  | none => c.unbind agent
  | some _ => (c.unbind agent).destroy [cid]

/-- `cleanup_sleeping_containers`. -/
def cleanupSleeping : World :=
  let all := c.manager.sleepingContainers.entries.flatMap Sigma.snd
  { c.destroy (all.map SleepingContainer.containerId) with
    manager := { c.manager with sleepingContainers := ∅ } }

/-- `destroy_sandbox_layer`: the daemon drops the containers of the sandbox, the pool keeps
theirs. -/
def destroySandboxLayer (name : SandboxName) (sid : SandboxId) : World :=
  { c.destroy ((c.containers.entries.filter fun e => e.2.sandbox = sid).map Sigma.fst) with
    manager := { c.manager with sandboxes := c.manager.sandboxes.erase name }
    layers := c.layers.erase sid }

end World

/-- A call, with what the environment decides: new identifiers, and what works. -/
inductive Action where
  | createSandbox (name : SandboxName) (sid : SandboxId) (layer : SandboxLayer)
  | destroySandbox (name : SandboxName)
  | wakeOrCreate (name : SandboxName) (agent : AgentId) (cid : ContainerId) (fate : CreateFate)
  | tool (agent : AgentId) (effect : Workspace → Workspace)
  | sleep (agent : AgentId) (name : SandboxName) (fate : SleepFate)
  | destroyAgent (agent : AgentId)
  | applyDiff (name : SandboxName) (diff : Text) (fate : ApplyFate)
  | cleanup

/-- One call; `none` where it gives an error.  Identifiers are given out once. -/
def step (git : Git) (c : World) : Action → Option World
  | .createSandbox name sid layer =>
    some { c with
      manager := { c.manager with sandboxes := c.manager.sandboxes.insert name sid }
      layers := c.layers.insert sid layer }
  | .destroySandbox name =>
    (c.manager.sandboxes.lookup name).map (c.destroySandboxLayer name)
  | .wakeOrCreate name agent cid fate =>
    if agent ∈ c.manager.containers ∨ cid ∈ c.issued then none
    else c.wakeOrCreate git fate name agent cid
  | .tool agent effect =>
    (c.manager.containers.lookup agent).map fun cid => c.inContainer cid effect
  | .sleep agent name fate => some (c.sleepAgentLayer git fate agent name)
  | .destroyAgent agent => (c.manager.containers.lookup agent).map (c.destroyAgentLayer agent)
  | .applyDiff name diff fate =>
    match c.manager.sandboxes.lookup name with
    | none => none
    | some sid =>
      match c.layers.lookup sid with
      | none => none
      | some layer =>
        match applyDiffToSandbox git fate layer diff with
        | .ok layer' => some { c with layers := c.layers.insert sid layer' }
        | .error _ => some c
  | .cleanup => some c.cleanupSleeping

end Mowis.Topology
