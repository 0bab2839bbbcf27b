import Mowis.Lib.HashMap
import Mowis.Lib.Dag

/-!
# Plans and configuration of the orchestrator

`mowis-orchestration/src/plan.rs`, `config.rs` and the outcome types of `crew.rs`
and `events.rs`, as far as the two captains use them.  A plan as loaded from disk
is any list of task nodes; `Plan::validate` is a separate check that loading does
not make.
-/

namespace Mowis.Orchestration

open Mowis.Lib

abbrev TaskId := String
abbrev PlanId := String

inductive ModelTier where
  | fast
  | mid
  | flagship
  deriving DecidableEq, Repr

inductive Tier where
  | conductor
  | critic
  | captain
  | crew
  deriving DecidableEq, Repr

def Tier.debug : Tier → String
  | .conductor => "Conductor"
  | .critic => "Critic"
  | .captain => "Captain"
  | .crew => "Crew"

structure TaskNode where
  id : TaskId
  title : String
  description : String
  deps : List TaskId
  modelTier : ModelTier
  toolBudget : ℕ
  filesHint : List String
  deriving DecidableEq, Repr

/-- The part of a loaded plan that the captains read. -/
structure Plan where
  planId : PlanId
  tasks : List TaskNode
  deriving DecidableEq, Repr

namespace Plan

variable (plan : Plan)

def ids : List TaskId := plan.tasks.map TaskNode.id

def findTask (t : TaskId) : Option TaskNode := plan.tasks.find? (fun task => decide (task.id = t))

theorem findTask_some {plan : Plan} {t : TaskId} {node : TaskNode}
    (h : plan.findTask t = some node) : node ∈ plan.tasks ∧ node.id = t :=
  ⟨List.mem_of_find?_eq_some h, by simpa using List.find?_some h⟩

theorem exists_findTask {plan : Plan} {t : TaskId} (h : t ∈ plan.ids) :
    ∃ node, plan.findTask t = some node := by
  obtain ⟨task, htask, hid⟩ := List.mem_map.mp h
  rw [findTask, ← Option.isSome_iff_exists, List.find?_isSome]
  exact ⟨task, htask, by simpa using hid⟩

theorem findTask_of_mem {plan : Plan} (hu : plan.ids.Nodup) {task : TaskNode}
    (h : task ∈ plan.tasks) : plan.findTask task.id = some task := by
  obtain ⟨node, hnode⟩ := exists_findTask (List.mem_map.mpr ⟨task, h, rfl⟩ : task.id ∈ plan.ids)
  obtain ⟨hmem, hid⟩ := findTask_some hnode
  rw [hnode, List.inj_on_of_nodup_map hu hmem h hid]

def lastDeps (t : TaskId) : Option (List TaskId) :=
  (plan.tasks.reverse.find? (fun task => decide (task.id = t))).map TaskNode.deps

theorem lastDeps_isSome {plan : Plan} {t : TaskId} : (plan.lastDeps t).isSome ↔ t ∈ plan.ids := by
  rw [lastDeps, Option.isSome_map, List.find?_isSome]
  simp [ids]

theorem lastDeps_of_mem {plan : Plan} (hu : plan.ids.Nodup) {task : TaskNode}
    (h : task ∈ plan.tasks) : plan.lastDeps task.id = some task.deps := by
  have hsome : (plan.lastDeps task.id).isSome :=
    lastDeps_isSome.mpr (List.mem_map.mpr ⟨task, h, rfl⟩)
  obtain ⟨deps, hdeps⟩ := Option.isSome_iff_exists.mp hsome
  obtain ⟨node, hnode, rfl⟩ := Option.map_eq_some_iff.mp hdeps
  have hmem := List.mem_reverse.mp (List.mem_of_find?_eq_some hnode)
  have hid : node.id = task.id := by simpa using List.find?_some hnode
  rw [hdeps, List.inj_on_of_nodup_map hu hmem h hid]

/-- `d` is listed as a dependency of `t`. -/
def DependsOn (t d : TaskId) : Prop := ∃ task ∈ plan.tasks, task.id = t ∧ d ∈ task.deps

end Plan

inductive Provider where
  | vertexAi
  | grok
  | groq
  | anthropic
  | openAi
  | gemini
  | mimo
  deriving DecidableEq, Repr

structure ModelRef where
  provider : Provider
  model : String
  deriving DecidableEq, Repr

structure ProviderCreds where
  apiKeyEnc : Option String
  projectId : Option String
  deriving DecidableEq, Repr

structure LlmConfig where
  provider : Provider
  model : String
  vertexProjectId : Option String
  apiKey : Option String
  deriving DecidableEq, Repr

structure OrchConfig where
  providers : HashMap Provider ProviderCreds
  tiers : HashMap Tier ModelRef

/-- `crypto::decrypt` on this machine: the plaintext of a stored key, or why there is none. -/
abbrev Decrypt := String → Except String String

def OrchConfig.llmFor (cfg : OrchConfig) (decrypt : Decrypt) (tier : Tier) :
    Except String LlmConfig :=
  match cfg.tiers.lookup tier with
  | none => .error ("no model configured for tier " ++ tier.debug)
  | some modelRef =>
    let creds := cfg.providers.lookup modelRef.provider
    let projectId := creds.bind ProviderCreds.projectId
    match creds.bind ProviderCreds.apiKeyEnc with
    | none => .ok ⟨modelRef.provider, modelRef.model, projectId, none⟩
    | some enc =>
      match decrypt enc with
      | .ok key => .ok ⟨modelRef.provider, modelRef.model, projectId, some key⟩
      | .error e => .error e

def ModelTier.tier : ModelTier → Tier
  | .fast => .crew
  | .mid => .captain
  | .flagship => .conductor

def OrchConfig.llmForTask (cfg : OrchConfig) (decrypt : Decrypt) (task : TaskNode) :
    Except String LlmConfig :=
  cfg.llmFor decrypt task.modelTier.tier

inductive CrewOutcome where
  | done (agentId summary : String) (toolCalls : ℕ)
  | failed (agentId reason : String) (toolCalls : ℕ)
  deriving DecidableEq, Repr

/-- How the future of a crew ends: it returns, or it panics. -/
inductive CrewEnd where
  | returned (result : Except String CrewOutcome)
  | panicked

/-- `Ok(CrewOutcome::Done { .. })`. -/
def CrewEnd.isDone : CrewEnd → Bool
  | .returned (.ok (.done _ _ _)) => true
  | _ => false

/-- `Ok(CrewOutcome::Failed { .. })` or an error. -/
def CrewEnd.isFailure : CrewEnd → Bool
  | .returned (.ok (.failed _ _ _)) => true
  | .returned (.error _) => true
  | _ => false

def CrewEnd.isPanic : CrewEnd → Bool
  | .panicked => true
  | _ => false

theorem CrewEnd.trichotomy (e : CrewEnd) :
    e.isDone = true ∧ e.isFailure = false ∧ e.isPanic = false ∨
      e.isDone = false ∧ e.isFailure = true ∧ e.isPanic = false ∨
      e.isDone = false ∧ e.isFailure = false ∧ e.isPanic = true := by
  cases e with
  | panicked => exact .inr (.inr ⟨rfl, rfl, rfl⟩)
  | returned r =>
    cases r with
    | error _ => exact .inr (.inl ⟨rfl, rfl, rfl⟩)
    | ok o =>
      cases o with
      | done _ _ _ => exact .inl ⟨rfl, rfl, rfl⟩
      | failed _ _ _ => exact .inr (.inl ⟨rfl, rfl, rfl⟩)

inductive CaptainOutcome where
  | completed (sandboxId : String)
  | failed (reason sandboxId : String)
  | aborted
  deriving DecidableEq, Repr

/-- The events the captains emit themselves. -/
inductive Event where
  | captainStarted (planId : PlanId) (sandboxId : String)
  | mergeCompleted (planId : PlanId) (agentId : String)
  | crewFailed (planId : PlanId) (agentId reason : String)
  | planCompleted (planId : PlanId)
  | planFailed (planId : PlanId) (reason : String)
  | taskInjected (planId : PlanId) (taskId : TaskId) (reason : String)
  deriving DecidableEq, Repr

def CrewOutcome.reasonText : CrewOutcome → String
  | .failed _ reason _ => reason
  | .done _ _ _ => ""

end Mowis.Orchestration
