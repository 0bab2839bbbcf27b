import Mowis.Scheduling.Model
import Mowis.Pool.Health

/-!
# The worker pools of full and standard mode

`agentd/src/orchestration/new_orchestrator.rs`: a fixed number of workers share
one scheduler and one health monitor.  Each worker repeats a `for` loop over the
sandboxes; for the first ready task it finds it asks the circuit breaker, gets an
agent container, marks the task started, executes it and reports the outcome.
Both modes run this body; they differ in the cap on the number of workers and in
what is done with the diff of a finished task.

A worker is in one of the places where it waits for something (`Worker`); `step`
moves one worker by one atomic action, whose environment part is the `Label`.
The `continue`s of the source go on with the remaining sandboxes of the `for`
loop.
-/

namespace Mowis.Pool

open Mowis.Lib Mowis.Scheduling

inductive PoolMode where
  | standard
  | full
  deriving DecidableEq, Repr

/-- `max_agents` under the cap of the mode. -/
def PoolMode.workerCount (mode : PoolMode) (maxAgents : ℕ) : ℕ :=
  match mode with
  | .standard => min maxAgents 3
  | .full => min maxAgents 1000

inductive Worker where
  /-- In the `for` loop, with the sandboxes still to visit and `task_found`. -/
  | polling (rest : List SandboxName) (taskFound : Bool)
  /-- Popped `t`; about to ask the circuit breaker. -/
  | checking (t : TaskId) (sandbox : SandboxName) (rest : List SandboxName)
  /-- About to wake or create an agent container for `t`. -/
  | creating (t : TaskId) (sandbox : SandboxName) (rest : List SandboxName)
  /-- `t` is marked started and running in the agent's container. -/
  | executing (t : TaskId) (sandbox : SandboxName) (rest : List SandboxName) (agent : AgentHandle)
      (assigned : agent.taskId = some t)
  | exited

def Worker.task? : Worker → Option TaskId
  | .checking t _ _ => some t
  | .creating t _ _ => some t
  | .executing t _ _ _ _ => some t
  | _ => none

structure AgentWorkResult where
  result : AgentResult
  taskDescription : String

structure WorkerPool where
  mode : PoolMode
  scheduler : Scheduler
  health : HealthMonitor
  sandboxes : List SandboxName
  workers : List Worker
  agentCount : ℕ
  errors : List String
  results : HashMap SandboxName (List AgentWorkResult)

/-- The container of a new or woken agent, as `wake_or_create_agent_layer` returns it. -/
structure AgentLayer where
  agentId : String
  sandboxId : SandboxName
  containerId : String

/-- What `execute_task` reports of an executed task; in standard mode with the host-side
diff in place of an empty one. -/
structure ExecOutcome where
  success : Bool
  gitDiff : Option String
  error : Option String

/-- What the environment contributes to one step of a worker. -/
inductive Label where
  | poll
  | health (now : ℕ)
  | layer (now : ℕ) (outcome : Except String AgentLayer)
  | outcome (now : ℕ) (outcome : Except String ExecOutcome)

namespace WorkerPool

variable (p : WorkerPool)

def start (mode : PoolMode) (maxAgents : ℕ) (g : TaskGraph) (hints : HashMap TaskId SandboxName)
    (sandboxes : List SandboxName) : WorkerPool where
  mode := mode
  scheduler := Scheduling.new g hints
  health := HealthMonitor.new 300 5
  sandboxes := sandboxes
  workers := List.replicate (mode.workerCount maxAgents) (.polling sandboxes false)
  agentCount := 0
  errors := []
  results := ∅

def setWorker (i : ℕ) (w : Worker) : WorkerPool := { p with workers := p.workers.set i w }

/-- `completed + failed + skipped >= total_tasks`. -/
def exitTest : Bool :=
  let stats := p.scheduler.getStats
  decide (stats.totalTasks ≤ stats.completed + stats.failed + stats.skipped)

def description (t : TaskId) : String := (p.scheduler.getTaskDescription t).getD "Unknown task"

def createFailedText (i : ℕ) (e : String) : String :=
  "[Worker " ++ toString i ++ "] Failed to create agent: " ++ e

def taskFailedText (i : ℕ) (description e : String) : String :=
  "[Worker " ++ toString i ++ "] Task '" ++ description ++ "' failed: " ++ e

/-- `Ok` of `execute_task`: report, record the health outcome, store the result, put the
container to sleep and start the next round. -/
def finish (i : ℕ) (sandbox : SandboxName) (agent : AgentHandle) (t : TaskId) (now : ℕ)
    (r : ExecOutcome) : WorkerPool :=
  let result : AgentResult := ⟨agent.taskId.getD "", r.success, r.gitDiff, r.error⟩
  let health := if r.success then p.health.recordSuccess sandbox
    else p.health.recordFailure now sandbox
  { p with
    scheduler := p.scheduler.handleTaskCompletion result
    health := health.removeAgent agent.agentId
    results := HashMap.entryPush p.results sandbox ⟨result, p.description t⟩ }.setWorker i
      (.polling p.sandboxes false)

/-- `Err` of `execute_task`: the failure is reported to the scheduler, and the loop goes on. -/
def reportError (i : ℕ) (rest : List SandboxName) (t : TaskId) (e : String) : WorkerPool :=
  let text := taskFailedText i (p.description t) e
  { p with
    scheduler := p.scheduler.handleTaskCompletion ⟨t, false, none, some text⟩
    errors := p.errors ++ [text] }.setWorker i (.polling rest true)

/-- The agent is there: count it, send its heartbeat, mark the task started.  The error
branch of `mark_task_started` is dead code: the call returns `Ok` always. -/
def beginTask (i : ℕ) (t : TaskId) (sandbox : SandboxName) (rest : List SandboxName) (now : ℕ)
    (layer : AgentLayer) : WorkerPool :=
  let agent : AgentHandle := ⟨layer.agentId, layer.sandboxId, layer.containerId, some t⟩
  { p with
    agentCount := if p.mode = PoolMode.full then p.agentCount + 1 else p.agentCount
    health := p.health.heartbeat now agent.agentId
    scheduler := p.scheduler.markTaskStarted t agent }.setWorker i
      (.executing t sandbox rest agent rfl)

/-- One action of worker `i`; `none` when the label does not fit its place. -/
def step (i : ℕ) (label : Label) : Option WorkerPool :=
  match p.workers[i]?, label with
  | some (.polling (sandbox :: rest) found), .poll =>
    match p.scheduler.getReadyTask sandbox with
    | (s, some t) => some ({ p with scheduler := s }.setWorker i (.checking t sandbox rest))
    | (_, none) => some (p.setWorker i (.polling rest found))
  | some (.polling [] true), .poll => some (p.setWorker i (.polling p.sandboxes false))
  | some (.polling [] false), .poll =>
    if p.exitTest then some (p.setWorker i .exited)
    else some (p.setWorker i (.polling p.sandboxes false))
  | some (.checking t sandbox rest), .health now =>
    match p.health.isSandboxHealthy now sandbox with
    | (h, true) => some ({ p with health := h }.setWorker i (.creating t sandbox rest))
    | (h, false) => some ({ p with health := h }.setWorker i (.polling rest true))
  | some (.creating t sandbox rest), .layer now (.ok layer) =>
    some (p.beginTask i t sandbox rest now layer)
  | some (.creating _ _ rest), .layer _ (.error e) =>
    some ({ p with errors := p.errors ++ [createFailedText i e] }.setWorker i (.polling rest true))
  | some (.executing t sandbox _ agent _), .outcome now (.ok r) =>
    some (p.finish i sandbox agent t now r)
  | some (.executing t _ rest _ _), .outcome _ (.error e) => some (p.reportError i rest t e)
  | _, _ => none

/-- Worker `i` is about to drop the task it popped: the circuit of the sandbox is
open, or no container can be created. -/
def Drops (i : ℕ) (label : Label) : Prop :=
  match p.workers[i]?, label with
  | some (.checking _ sandbox _), .health now => (p.health.isSandboxHealthy now sandbox).2 = false
  | some (.creating _ _ _), .layer _ (.error _) => True
  | _, _ => False

/-- The pools reached from `init` by steps of any workers, each allowed by `ok`. -/
inductive Reaches (ok : WorkerPool → ℕ → Label → Prop) (init : WorkerPool) : WorkerPool → Prop
  | start : Reaches ok init init
  | next {p p' : WorkerPool} (i : ℕ) (label : Label) : Reaches ok init p → ok p i label →
      p.step i label = some p' → Reaches ok init p'

theorem Reaches.trans {ok : WorkerPool → ℕ → Label → Prop}
    {a b c : WorkerPool} (hab : Reaches ok a b)
    (hbc : Reaches ok b c) : Reaches ok a c := by
  induction hbc with
  | start => exact hab
  | next i label _ hok hstep ih => exact ih.next i label hok hstep

def Keeps (p : WorkerPool) (i : ℕ) (label : Label) : Prop := ¬ p.Drops i label

end WorkerPool

end Mowis.Pool
