import Mowis.Lib.HashMap

/-!
# The event-driven task scheduler

`agentd/src/orchestration/scheduler.rs`, operation by operation.  A scheduler
holds, per task, the number of dependencies still to complete; a task whose
counter reaches zero is pushed to the ready queue of its sandbox.  The truth
about a task is kept in four other places (`running`, `completed`, `failed`,
`skipped`), and the invariants that tie them together are in the modules after
this one.

Each operation is one atomic step here: the locks of the source are taken one
after the other inside an operation.  The walk over skipped dependents is a loop
on a work list; it terminates because every round either shortens the work list
or skips a task that was not skipped before.
-/

namespace Mowis.Scheduling

open Mowis.Lib

abbrev TaskId := String
abbrev SandboxName := String

structure Task where
  id : TaskId
  description : String
  deps : List TaskId
  hint : Option String
  deriving DecidableEq, Repr

structure TaskGraph where
  tasks : List Task

structure AgentHandle where
  agentId : String
  sandboxName : SandboxName
  containerId : String
  taskId : Option TaskId
  deriving DecidableEq, Repr

structure AgentResult where
  taskId : TaskId
  success : Bool
  gitDiff : Option String
  error : Option String
  deriving DecidableEq, Repr

structure Scheduler where
  taskGraph : HashMap TaskId Task
  /-- Dependency counters, decremented on task completion. -/
  depCounter : HashMap TaskId ℕ
  /-- Reverse dependency map: a task and the tasks that list it as a dependency. -/
  dependents : HashMap TaskId (List TaskId)
  sandboxHints : HashMap TaskId SandboxName
  readyQueues : HashMap SandboxName (List TaskId)
  running : HashMap TaskId AgentHandle
  completed : Finset TaskId
  failed : HashMap TaskId String
  skipped : Finset TaskId
  idleAgents : HashMap SandboxName (List AgentHandle)
  results : HashMap TaskId AgentResult
  totalTasks : ℕ

/-- The sandbox a task is queued in: its hint, or `"default"`. -/
def sandboxFor (hints : HashMap TaskId SandboxName) (t : TaskId) : SandboxName :=
  (hints.lookup t).getD "default"

def buildTaskMap (g : TaskGraph) : HashMap TaskId Task :=
  g.tasks.foldl (fun m task => m.insert task.id task) ∅

def buildDepCounter (g : TaskGraph) : HashMap TaskId ℕ :=
  g.tasks.foldl (fun m task => m.insert task.id task.deps.length) ∅

def buildDependents (g : TaskGraph) : HashMap TaskId (List TaskId) :=
  g.tasks.foldl (fun m task =>
    task.deps.foldl (fun m depId => HashMap.entryPush m depId task.id) m) ∅

def buildReadyQueues (g : TaskGraph) (hints : HashMap TaskId SandboxName) :
    HashMap SandboxName (List TaskId) :=
  (g.tasks.filter (fun task => task.deps.isEmpty)).foldl
    (fun m task => HashMap.entryPush m (sandboxFor hints task.id) task.id) ∅

def new (g : TaskGraph) (hints : HashMap TaskId SandboxName) : Scheduler where
  taskGraph := buildTaskMap g
  depCounter := buildDepCounter g
  dependents := buildDependents g
  sandboxHints := hints
  readyQueues := buildReadyQueues g hints
  running := ∅
  completed := ∅
  failed := ∅
  skipped := ∅
  idleAgents := ∅
  results := ∅
  totalTasks := g.tasks.length

namespace Scheduler

variable (s : Scheduler)

def queue (sandbox : SandboxName) : List TaskId := HashMap.bucket s.readyQueues sandbox

/-- The tasks that list `t` as a dependency, once per listing. -/
def dependentsOf (t : TaskId) : List TaskId := HashMap.bucket s.dependents t

def sandboxOf (t : TaskId) : SandboxName := sandboxFor s.sandboxHints t

def Resolved (t : TaskId) : Prop := t ∈ s.completed ∨ t ∈ s.skipped ∨ t ∈ s.failed

instance (t : TaskId) : Decidable (s.Resolved t) :=
  inferInstanceAs (Decidable (_ ∨ _ ∨ _))

def getTaskDescription (t : TaskId) : Option String := (s.taskGraph.lookup t).map Task.description

def getReadyTask (sandbox : SandboxName) : Scheduler × Option TaskId :=
  match s.readyQueues.lookup sandbox with
  | some (t :: rest) => ({ s with readyQueues := s.readyQueues.insert sandbox rest }, some t)
  | _ => (s, none)

def markTaskStarted (t : TaskId) (agent : AgentHandle) : Scheduler :=
  { s with running := s.running.insert t agent }

/-- `push_back` on the ready queue of the task's sandbox. -/
def enqueue (t : TaskId) : Scheduler :=
  { s with readyQueues := HashMap.entryPush s.readyQueues (s.sandboxOf t) t }

/-- `AtomicUsize::fetch_sub(1)`, which wraps around below zero. -/
def fetchSub (counter : ℕ) : ℕ := if counter = 0 then 2 ^ 64 - 1 else counter - 1

/-- One round of the loop of `unlock_dependents`. -/
def unlockOne (t : TaskId) : Scheduler :=
  if t ∈ s.failed ∨ t ∈ s.skipped then s
  else
    match s.depCounter.lookup t with
    | none => s
    | some prev =>
      let s' := { s with depCounter := s.depCounter.insert t (fetchSub prev) }
      if prev = 1 then s'.enqueue t else s'

def unlockDependents (t : TaskId) : Scheduler := (s.dependentsOf t).foldl unlockOne s

/-- Some dependency of the task has failed or was skipped; an unknown task counts
as such. -/
def shouldSkip (t : TaskId) : Bool :=
  match s.taskGraph.lookup t with
  | some task => task.deps.any (fun d => decide (d ∈ s.failed ∨ d ∈ s.skipped))
  | none => true

/-- Record `t` as skipped and drop it from every ready queue. -/
def skip (t : TaskId) : Scheduler :=
  { s with
    skipped := insert t s.skipped
    readyQueues := HashMap.mapValues (fun q => q.filter (fun id => decide (id ≠ t))) s.readyQueues }

/-- The dependents listed for tasks that are not skipped yet: what the skip loop
may still push to its work list. -/
def unskippedListings : ℕ :=
  ((s.dependents.keys.filter (fun k => decide (k ∉ s.skipped))).map
    (fun k => (s.dependentsOf k).length)).sum

theorem unskippedListings_skip (t : TaskId) (ht : t ∉ s.skipped) :
    (s.skip t).unskippedListings + (s.dependentsOf t).length = s.unskippedListings := by
  have h := sum_filter_add s.dependents.keys s.dependents.keys_nodup
    (fun k => (s.dependentsOf k).length) (fun k => decide (k ∉ insert t s.skipped))
    (fun k => decide (k ∉ s.skipped)) t (by simp) (by simpa using ht)
    (fun k hk => by simp [hk])
  by_cases hmem : t ∈ s.dependents.keys
  · rw [if_pos hmem] at h
    exact h
  · have hnone : s.dependentsOf t = [] := by
      have : s.dependents.lookup t = none := AList.lookup_eq_none.mpr hmem
      rw [dependentsOf, HashMap.bucket, this]
      rfl
    rw [if_neg hmem] at h
    rw [hnone]
    exact h

/-- The breadth-first loop of `skip_dependents` on its work list. -/
def skipLoop (s : Scheduler) : List TaskId → Scheduler
  | [] => s
  | t :: rest =>
    if s.Resolved t then skipLoop s rest
    else if s.shouldSkip t then skipLoop (s.skip t) (rest ++ s.dependentsOf t)
    else skipLoop s rest
termination_by toSkip => toSkip.length + s.unskippedListings
decreasing_by
  · simp
  · rename_i hres _
    have ht : t ∉ s.skipped := fun h => hres (.inr (.inl h))
    have hskip := s.unskippedListings_skip t ht
    simp only [List.length_append, List.length_cons]
    omega
  · simp

def skipDependents (t : TaskId) : Scheduler := s.skipLoop (s.dependentsOf t)

def handleTaskCompletion (result : AgentResult) : Scheduler :=
  let t := result.taskId
  let s := { s with running := s.running.erase t, results := s.results.insert t result }
  if result.success then
    { s with completed := insert t s.completed }.unlockDependents t
  else
    { s with failed := s.failed.insert t (result.error.getD "Unknown error") }.skipDependents t

def handleTaskFailure (t : TaskId) (error : String) : Scheduler :=
  { s with failed := s.failed.insert t error, running := s.running.erase t }.skipDependents t

def unsatisfied (task : Task) : ℕ := (task.deps.filter (fun d => decide (d ∉ s.completed))).length

def retryTask (t : TaskId) : Scheduler × Bool :=
  if t ∈ s.failed then
    let s := { s with failed := s.failed.erase t }
    match s.taskGraph.lookup t, s.depCounter.lookup t with
    | some task, some _ =>
      let s' := { s with depCounter := s.depCounter.insert t (s.unsatisfied task) }
      if s.unsatisfied task = 0 then (s'.enqueue t, true) else (s', true)
    | _, _ => (s, true)
  else (s, false)

def registerIdleAgent (agent : AgentHandle) : Scheduler :=
  { s with idleAgents := HashMap.entryPush s.idleAgents agent.sandboxName agent }

def getIdleAgent (sandbox : SandboxName) : Scheduler × Option AgentHandle :=
  match s.idleAgents.lookup sandbox with
  | some (a :: rest) => ({ s with idleAgents := s.idleAgents.insert sandbox rest }, some a)
  | _ => (s, none)

def isComplete : Bool :=
  (s.readyQueues.entries.map (fun e => e.2.length)).sum == 0 &&
    !s.depCounter.entries.any (fun e =>
      e.2 != 0 && decide (e.1 ∉ s.completed ∧ e.1 ∉ s.failed ∧ e.1 ∉ s.skipped))

structure SchedulerStats where
  totalTasks : ℕ
  completed : ℕ
  failed : ℕ
  skipped : ℕ
  running : ℕ
  pending : ℕ
  deriving DecidableEq, Repr

def getStats : SchedulerStats where
  totalTasks := s.totalTasks
  completed := s.completed.card
  failed := s.failed.keys.length
  skipped := s.skipped.card
  running := s.running.keys.length
  pending := s.totalTasks -
    (s.completed.card + s.failed.keys.length + s.skipped.card + s.running.keys.length)

end Scheduler

end Mowis.Scheduling
