import Mowis.Orchestration.Plan

/-!
# The event-driven captain

`Captain::start_plan`, `run_injected_tasks` and `inject_task` of
`mowis-orchestration/src/captain.rs`.  A crew is spawned as soon as the
dependencies of its task are done; the captain then waits for one message, and
looks for ready tasks again.

What the captain does not decide is in `Environment`: how each crew ends, in which
order the hash maps are walked and the messages arrive, and whether stored keys
decrypt.  A crew that panics sends no message, and the captain keeps a sender of
its own channel, so it waits for ever when only such crews are left (`hangs`).
-/

namespace Mowis.Orchestration

open Mowis.Lib

structure InjectedTask where
  id : String
  title : String
  description : String
  deps : List TaskId
  modelTier : String
  toolBudget : ℕ
  injectedAt : String
  reason : String
  deriving DecidableEq, Repr

structure Captain where
  cfg : OrchConfig
  plan : Option Plan
  sandboxId : Option String
  completed : HashMap TaskId CrewOutcome
  failed : HashMap TaskId CrewOutcome
  injectedTasks : List InjectedTask

def Captain.new (cfg : OrchConfig) : Captain where
  cfg := cfg
  plan := none
  sandboxId := none
  completed := ∅
  failed := ∅
  injectedTasks := []

/-- Everything one `start_plan` depends on and does not decide. -/
structure Environment where
  decrypt : Decrypt
  /-- How the crew spawned for a task of the graph ends. -/
  outcome : TaskId → CrewEnd
  /-- How the crew of the injected task at a position ends. -/
  injectedOutcome : ℕ → CrewEnd
  readyOrder : IterOrder TaskId
  arrival : IterOrder TaskId
  failedOrder : IterOrder CrewOutcome

def ModelTier.lowerDebug : ModelTier → String
  | .fast => "fast"
  | .mid => "mid"
  | .flagship => "flagship"

def Captain.injectTask (c : Captain) (task : TaskNode) (now : String) :
    Captain × List Event × TaskId :=
  let inj : InjectedTask := ⟨task.id, task.title, task.description, task.deps,
    task.modelTier.lowerDebug, task.toolBudget, now, "user mid-run inject"⟩
  let planId := (c.plan.map Plan.planId).getD "unknown"
  ({ c with injectedTasks := c.injectedTasks ++ [inj] },
    [.taskInjected planId task.id "user mid-run inject"], task.id)

/-! ### The scheduling loop -/

structure LoopState where
  captain : Captain
  /-- The tasks not started yet, with their dependencies. -/
  remaining : HashMap TaskId (List TaskId)
  completed : Finset TaskId
  /-- The crews spawned whose message has not been received. -/
  running : List TaskId
  events : List Event
  /-- The crews spawned so far and how they end. -/
  ran : List (TaskNode × CrewEnd)

namespace LoopState

variable (s : LoopState)

/-- The tasks whose dependencies are satisfied, as `remaining` stores them. -/
def readyTasks : List TaskId :=
  (s.remaining.entries.filter (fun e => e.2.all (fun d => decide (d ∈ s.completed)))).map Sigma.fst

theorem mem_readyTasks {s : LoopState} {t : TaskId} :
    t ∈ s.readyTasks ↔ ∃ deps, s.remaining.lookup t = some deps ∧ ∀ d ∈ deps, d ∈ s.completed := by
  rw [readyTasks, List.mem_map]
  constructor
  · intro h
    obtain ⟨e, he, rfl⟩ := h
    obtain ⟨hmem, hall⟩ := List.mem_filter.mp he
    refine ⟨e.2, AList.mem_lookup_iff.mpr hmem, ?_⟩
    simpa using hall
  · intro h
    obtain ⟨deps, hl, hall⟩ := h
    refine ⟨⟨t, deps⟩, List.mem_filter.mpr ⟨AList.mem_lookup_iff.mp hl, ?_⟩, rfl⟩
    simpa using hall

theorem mem_remaining_of_ready {s : LoopState} {t : TaskId} (h : t ∈ s.readyTasks) :
    t ∈ s.remaining := by
  obtain ⟨deps, hl, -⟩ := mem_readyTasks.mp h
  exact AList.lookup_isSome.mp (by rw [hl]; rfl)

theorem nodup_readyTasks (s : LoopState) : s.readyTasks.Nodup :=
  s.remaining.keys_nodup.sublist (List.filter_sublist.map Sigma.fst)

/-- One round of the spawn loop: take the task off `remaining` and start its crew. -/
def spawn (plan : Plan) (env : Environment) (t : TaskId) : Except (LoopState × String) LoopState :=
  let s := { s with remaining := s.remaining.erase t }
  match plan.findTask t with
  | none => .error (s, "task " ++ t ++ " not found")
  | some node =>
    match s.captain.cfg.llmForTask env.decrypt node with
    | .error e => .error (s, e)
    | .ok _ => .ok { s with running := s.running ++ [t], ran := s.ran ++ [(node, env.outcome t)] }

def spawnAll (plan : Plan) (env : Environment) :
    LoopState → List TaskId → Except (LoopState × String) LoopState
  | s, [] => .ok s
  | s, t :: ts =>
    match s.spawn plan env t with
    | .ok s' => spawnAll plan env s' ts
    | .error e => .error e

/-- The message of crew `t` has arrived. -/
def receive (planId : PlanId) (t : TaskId) (result : Except String CrewOutcome) : LoopState :=
  let s := { s with running := s.running.erase t }
  match result with
  | .ok (.done agentId summary calls) =>
    { s with
      completed := insert t s.completed
      events := s.events ++ [.mergeCompleted planId agentId]
      captain := { s.captain with
        completed := s.captain.completed.insert t (.done agentId summary calls) } }
  | .ok (.failed agentId reason calls) =>
    { s with
      events := s.events ++ [.crewFailed planId agentId reason]
      captain := { s.captain with
        failed := s.captain.failed.insert t (.failed agentId reason calls) } }
  | .error e =>
    { s with captain := { s.captain with failed := s.captain.failed.insert t (.failed "" e 0) } }

def nextMessage (env : Environment) : Option (TaskId × Except String CrewOutcome) :=
  (env.arrival.arrange s.running).findSome? fun t =>
    match env.outcome t with
    | .returned r => some (t, r)
    | .panicked => none

theorem nextMessage_some {s : LoopState} {env : Environment} {t : TaskId}
    {r : Except String CrewOutcome} (h : s.nextMessage env = some (t, r)) :
    t ∈ s.running ∧ env.outcome t = .returned r := by
  obtain ⟨u, hu, hmsg⟩ := List.exists_of_findSome?_eq_some h
  split at hmsg
  · rename_i r' hr
    obtain ⟨rfl, rfl⟩ := Prod.mk.inj (Option.some.inj hmsg)
    exact ⟨(env.arrival.mem_arrange _ _).mp hu, hr⟩
  · cases hmsg

theorem nextMessage_none {s : LoopState} {env : Environment} (h : s.nextMessage env = none) :
    ∀ t ∈ s.running, env.outcome t = .panicked := by
  intro t ht
  have hno := List.findSome?_eq_none_iff.mp h t ((env.arrival.mem_arrange _ _).mpr ht)
  split at hno
  · cases hno
  · assumption

def pending : ℕ := s.remaining.keys.length + s.running.length

theorem spawn_ok {s s' : LoopState} {plan : Plan} {env : Environment} {t : TaskId}
    (h : s.spawn plan env t = .ok s') :
    ∃ node config, plan.findTask t = some node ∧
      s.captain.cfg.llmForTask env.decrypt node = .ok config ∧
      s' = { s with
        remaining := s.remaining.erase t
        running := s.running ++ [t]
        ran := s.ran ++ [(node, env.outcome t)] } := by
  rw [spawn] at h
  cases hf : plan.findTask t with
  | none =>
    rw [hf] at h
    cases h
  | some node =>
    rw [hf] at h
    cases hl : s.captain.cfg.llmForTask env.decrypt node with
    | error e =>
      simp only [hl] at h
      cases h
    | ok config =>
      simp only [hl] at h
      cases h
      exact ⟨node, config, rfl, hl, rfl⟩

theorem pending_spawnAll {plan : Plan} {env : Environment} (ts : List TaskId) {s s' : LoopState}
    (hnd : ts.Nodup) (hmem : ∀ t ∈ ts, t ∈ s.remaining) (h : spawnAll plan env s ts = .ok s') :
    s'.pending = s.pending := by
  induction ts generalizing s with
  | nil =>
    cases h
    rfl
  | cons t ts ih =>
    obtain ⟨ht, hts⟩ := List.nodup_cons.mp hnd
    rw [spawnAll] at h
    cases hsp : s.spawn plan env t with
    | error e =>
      rw [hsp] at h
      cases h
    | ok s₁ =>
      rw [hsp] at h
      obtain ⟨node, config, -, -, rfl⟩ := spawn_ok hsp
      have hlen : (s.remaining.erase t).keys.length + 1 = s.remaining.keys.length := by
        have hkey : t ∈ s.remaining.keys := hmem t List.mem_cons_self
        have hpos := List.length_pos_of_mem hkey
        rw [AList.keys_erase, List.length_erase_of_mem hkey]
        omega
      rw [ih hts (fun u hu => ?_) h, pending, pending]
      · simp only [List.length_append, List.length_singleton]
        omega
      · refine AList.mem_erase.mpr ⟨?_, hmem u (List.mem_cons_of_mem _ hu)⟩
        intro hut
        exact ht (hut ▸ hu)

theorem pending_receive (planId : PlanId) {t : TaskId} (r : Except String CrewOutcome)
    (ht : t ∈ s.running) : (s.receive planId t r).pending + 1 = s.pending := by
  have hpos := List.length_pos_of_mem ht
  have hlen := List.length_erase_of_mem ht
  have hsame : (s.receive planId t r).pending =
      s.remaining.keys.length + (s.running.erase t).length := by
    unfold receive
    split <;> rfl
  rw [hsame, pending]
  omega

end LoopState

/-- How the scheduling loop ends. -/
inductive LoopEnd where
  | finished
  | failed (error : String)
  | hangs
  deriving DecidableEq, Repr

/-- The scheduling loop of `start_plan`. -/
def schedule (plan : Plan) (planId : PlanId) (env : Environment) (s : LoopState) :
    LoopState × LoopEnd :=
  let ready := env.readyOrder.arrange s.readyTasks
  if ready = [] ∧ s.running = [] then (s, .finished)
  else
    match _hsp : s.spawnAll plan env ready with
    | .error (s', e) => (s', .failed e)
    | .ok s' =>
      if s'.running = [] then (s', .finished)
      else
        match _hmsg : s'.nextMessage env with
        | none => (s', .hangs)
        | some (t, r) => schedule plan planId env (s'.receive planId t r)
termination_by s.pending
decreasing_by
  have hp := LoopState.pending_spawnAll _ (env.readyOrder.nodup_arrange s.nodup_readyTasks)
    (fun t ht => LoopState.mem_remaining_of_ready ((env.readyOrder.mem_arrange _ t).mp ht)) _hsp
  have hr := s'.pending_receive planId r (LoopState.nextMessage_some _hmsg).1
  omega

theorem schedule_round {plan : Plan} {planId : PlanId} {env : Environment} {s : LoopState}
    (hgo : ¬ (env.readyOrder.arrange s.readyTasks = [] ∧ s.running = [])) :
    schedule plan planId env s =
      match s.spawnAll plan env (env.readyOrder.arrange s.readyTasks) with
      | .error (s', e) => (s', .failed e)
      | .ok s' =>
        if s'.running = [] then (s', .finished)
        else
          match s'.nextMessage env with
          | none => (s', .hangs)
          | some (t, r) => schedule plan planId env (s'.receive planId t r) := by
  rw [schedule, if_neg hgo]
  split
  · rename_i s' e hsp
    rw [hsp]
  · rename_i s' hsp
    rw [hsp]
    refine if_congr Iff.rfl rfl ?_
    split
    · rename_i hmsg
      rw [hmsg]
    · rename_i t r hmsg
      rw [hmsg]

/-- What is left of a `start_plan` when it stops: it returns, it waits for ever, or it
panics. -/
inductive StartEnd where
  | returned (result : Except String CaptainOutcome)
  | hangs
  | panicked
  deriving DecidableEq, Repr

structure InjectedState where
  captain : Captain
  events : List Event
  ran : List (InjectedTask × CrewEnd)

def InjectedTask.toTaskNode (inj : InjectedTask) : TaskNode :=
  ⟨inj.id, inj.title, inj.description, inj.deps, .fast, inj.toolBudget, []⟩

/-- `run_injected_tasks` on the injected tasks from position `i` on; `false` when the crew
of one of them panics. -/
def runInjected (planId : PlanId) (env : Environment) :
    ℕ → List InjectedTask → InjectedState → InjectedState × Bool
  | _, [], s => (s, true)
  | i, inj :: rest, s =>
    let agentId := planId ++ "-" ++ inj.id
    match s.captain.cfg.llmForTask env.decrypt inj.toTaskNode with
    | .error _ => runInjected planId env (i + 1) rest s
    | .ok _ =>
      let s := { s with ran := s.ran ++ [(inj, env.injectedOutcome i)] }
      match env.injectedOutcome i with
      | .panicked => (s, false)
      | .returned (.ok outcome) =>
        runInjected planId env (i + 1) rest { s with
          events := s.events ++ [.mergeCompleted planId agentId]
          captain := { s.captain with completed := s.captain.completed.insert inj.id outcome } }
      | .returned (.error _) => runInjected planId env (i + 1) rest s

/-- What one `start_plan` did. -/
structure PlanRun where
  captain : Captain
  finish : StartEnd
  events : List Event
  /-- The crews spawned for tasks of the graph. -/
  ran : List (TaskNode × CrewEnd)
  /-- The crews run for injected tasks. -/
  ranInjected : List (InjectedTask × CrewEnd)

def verdictOf (failed : HashMap TaskId CrewOutcome) (planId : PlanId) (sandboxId : String)
    (env : Environment) : Event × CaptainOutcome :=
  if failed.entries = [] then (.planCompleted planId, .completed sandboxId)
  else
    let reasons := (env.failedOrder.arrange (failed.entries.map Sigma.snd)).map
      CrewOutcome.reasonText
    let reason := "; ".intercalate reasons
    (.planFailed planId reason, .failed reason sandboxId)

def Captain.verdict (c : Captain) (planId : PlanId) (sandboxId : String) (env : Environment) :
    Event × CaptainOutcome := verdictOf c.failed planId sandboxId env

/-- The map of dependencies that `start_plan` begins with. -/
def buildRemaining (plan : Plan) : HashMap TaskId (List TaskId) :=
  plan.tasks.foldl (fun m task => m.insert task.id task.deps) ∅

def Captain.sandboxFor (c : Captain) (planId : PlanId) : String := c.sandboxId.getD ("conv-" ++ planId)

/-- `start_plan` up to its scheduling loop. -/
def Captain.loopStart (c : Captain) (planId : PlanId) (plan : Plan) : LoopState where
  captain := { c with sandboxId := some (c.sandboxFor planId), plan := some plan }
  remaining := buildRemaining plan
  completed := ∅
  running := []
  events := [.captainStarted planId (c.sandboxFor planId)]
  ran := []

/-- `start_plan` after its scheduling loop: the injected tasks and the verdict. -/
def LoopState.conclude (s : LoopState) (planId : PlanId) (sandboxId : String) (env : Environment) :
    PlanRun :=
  let drained := { s.captain with injectedTasks := [] }
  match runInjected planId env 0 s.captain.injectedTasks ⟨drained, s.events, []⟩ with
  | (i, false) => ⟨i.captain, .panicked, i.events, s.ran, i.ran⟩
  | (i, true) =>
    let v := i.captain.verdict planId sandboxId env
    ⟨i.captain, .returned (.ok v.2), i.events ++ [v.1], s.ran, i.ran⟩

/-- `start_plan` of a plan that has been loaded. -/
def Captain.startPlan (c : Captain) (planId : PlanId) (plan : Plan) (env : Environment) : PlanRun :=
  match schedule plan planId env (c.loopStart planId plan) with
  | (s, .failed e) => ⟨s.captain, .returned (.error e), s.events, s.ran, []⟩
  | (s, .hangs) => ⟨s.captain, .hangs, s.events, s.ran, []⟩
  | (s, .finished) => s.conclude planId (c.sandboxFor planId) env

theorem lookup_buildRemaining (plan : Plan) (t : TaskId) :
    (buildRemaining plan).lookup t = plan.lastDeps t := by
  have h := HashMap.lookup_foldl_insert TaskNode.id TaskNode.deps plan.tasks
    (∅ : HashMap TaskId (List TaskId)) t
  rw [buildRemaining, h]
  simp [Plan.lastDeps]

end Mowis.Orchestration
