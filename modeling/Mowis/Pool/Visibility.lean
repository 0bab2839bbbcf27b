import Mowis.Pool.Worker
import Mowis.Scheduling.Ops
import Mowis.Topology.Capture
import Mowis.Topology.Manager

/-!
# What an agent sees of the work it depends on

The part of the worker loop of `agentd/src/orchestration/new_orchestrator.rs` from the result of
`execute_task` to its report: the diff of a successful task is applied to the base of the sandbox
in which the task ran, and then the task is reported as completed.
-/

namespace Mowis.Pool

open Mowis.Lib Mowis.Scheduling Mowis.Topology

/-- What the environment contributes to the run of an agent. -/
structure Attempt where
  /-- The workspace the agent is given. -/
  found : Workspace
  /-- The workspace at the start of the last attempt of `execute_task`. -/
  resumed : Workspace
  replies : List RoundReply
  capture : CaptureFate
  /-- What `capture_agent_diff` finds on the host; none where it fails. -/
  hostDiff : Option String
  fate : ApplyFate

structure AgentRun extends Attempt where
  mode : PoolMode
  task : TaskId
  sandbox : SandboxName
  /-- The sandbox's base when the run ends. -/
  base : SandboxLayer

def withHostDiff (mode : PoolMode) (hostDiff gitDiff : Option String) : Option String :=
  match mode with
  | .full => gitDiff
  | .standard =>
    if gitDiff.getD "" = "" then
      match hostDiff with
      | some d => if d = "" then gitDiff else some d
      | none => gitDiff
    else gitDiff

namespace AgentRun

variable (git : Git) (r : AgentRun)

def execute : Except String AgentResult × Workspace :=
  executeWithCheckpoints git r.capture r.task r.replies r.resumed

def left : Workspace := (r.execute git).2

def outcome : Except String ExecOutcome :=
  (r.execute git).1.map fun result =>
    ⟨result.success, withHostDiff r.mode r.hostDiff result.gitDiff, result.error⟩

def gitDiff : Option String := (r.outcome git).toOption.bind ExecOutcome.gitDiff

/-- The base afterwards.  An error of `apply_diff_to_sandbox` is logged and forgotten. -/
def applied : SandboxLayer :=
  match r.outcome git with
  | .error _ => r.base
  | .ok o =>
    match o.success, o.gitDiff with
    | true, some d =>
      if d = "" then r.base
      else
        match applyDiffToSandbox git r.fate r.base d.toList with
        | .ok layer => layer
        | .error _ => r.base
    | _, _ => r.base

end AgentRun

/-- The pool, the bases of the sandboxes, and the runs of agents that have ended. -/
structure Session where
  pool : WorkerPool
  layers : SandboxName → SandboxLayer
  /-- The run of each worker whose diff is dealt with, and that is still to be reported. -/
  reporting : ℕ → Option AgentRun
  /-- The successful runs reported so far. -/
  delivered : List AgentRun

inductive Action where
  /-- A step of a worker that has not executed its task. -/
  | worker (label : Label)
  /-- `execute_task`, and where it succeeds `apply_diff_to_sandbox`. -/
  | execute (now : ℕ) (attempt : Attempt)
  /-- `handle_task_completion`, and what follows it. -/
  | report (now : ℕ)

namespace Session

variable (git : Git) (s : Session)

def start (pool : WorkerPool) (layers : SandboxName → SandboxLayer) : Session where
  pool := pool
  layers := layers
  reporting := fun _ => none
  delivered := []

def setPool (p : WorkerPool) : Session := { s with pool := p }

/-- Worker `i` has executed its task: the diff is applied. -/
def hold (i : ℕ) (r : AgentRun) : Session :=
  { s with
    layers := Function.update s.layers r.sandbox (r.applied git)
    reporting := Function.update s.reporting i (some r) }

/-- Worker `i` has reported. -/
def deliver (i : ℕ) (r : AgentRun) (o : ExecOutcome) (p : WorkerPool) : Session :=
  { s with
    pool := p
    reporting := Function.update s.reporting i none
    delivered := if o.success then r :: s.delivered else s.delivered }

/-- One step of worker `i`. -/
def step (e : ℕ × Action) : Option Session :=
  match e with
  | (_, .worker (.outcome _ _)) => none
  | (i, .worker label) => (s.pool.step i label).map s.setPool
  | (i, .execute now attempt) =>
    match s.pool.workers[i]?, s.reporting i with
    | some (.executing _ sandbox _ agent _), none =>
      let r : AgentRun :=
        { attempt with
          mode := s.pool.mode
          task := agent.taskId.getD ""
          sandbox := sandbox
          base := s.layers sandbox }
      match r.outcome git with
      | .error e => (s.pool.step i (.outcome now (.error e))).map s.setPool
      | .ok _ => some (s.hold git i r)
    | _, _ => none
  | (i, .report now) =>
    match s.reporting i with
    | none => none
    | some r =>
      match r.outcome git with
      | .error _ => none
      | .ok o => (s.pool.step i (.outcome now (.ok o))).map (s.deliver i r o)

end Session

/-- The work of a run is in the base of the sandbox: its diff was captured, empty only where the
agent left its files as they were, and applying it has given the base. -/
def AgentRun.VisibleIn (git : Git) (sandbox : SandboxName) (r : AgentRun) : Prop :=
  ∃ d, r.gitDiff git = some d ∧
    if d = "" then git.visible (r.left git) = git.visible r.found
    else r.sandbox = sandbox ∧
      git.apply d.toList r.base.freshWorkspace.files = some (r.applied git).freshWorkspace.files

namespace Session

variable (git : Git) (s : Session)

/-- A task is completed only by runs whose work is in the base of their sandbox. -/
def Counted : Prop :=
  ∀ d ∈ s.pool.scheduler.completed, (∃ r ∈ s.delivered, r.task = d) ∧
    ∀ r ∈ s.delivered, r.task = d → r.VisibleIn git r.sandbox

/-- What holds of the completed dependencies of a task about to be handed out in a sandbox. -/
def OfDependencies (P : TaskId → SandboxName → Prop) (i : ℕ) : Prop :=
  ∀ t sandbox rest, s.pool.workers[i]? = some (.creating t sandbox rest) →
    ∀ task, s.pool.scheduler.taskGraph.lookup t = some task →
      ∀ d ∈ task.deps, d ∈ s.pool.scheduler.completed → P d sandbox

/-- A task is handed to an agent in a sandbox with the work of its completed dependencies. -/
def Sees : ℕ × Action → Prop
  | (i, .worker (.layer _ (.ok _))) =>
    s.OfDependencies (fun d sandbox => (∃ r ∈ s.delivered, r.task = d) ∧
      ∀ r ∈ s.delivered, r.task = d → r.VisibleIn git sandbox) i
  | _ => True

end Session

def AgentRun.Captures (git : Git) (r : AgentRun) (w : Workspace) : Prop :=
  (∃ out, Shows git r.capture w out) ∨
  (r.mode = .standard ∧ ∃ d, r.hostDiff = some d ∧ d ≠ "") ∨
  Answered git r.capture w ∧ git.visible (stagedBy git r.capture w) = git.visible r.found

/-- `git apply` does its work on the host in the base that new containers have, or there is
nothing for it to do. -/
def AgentRun.Lands (git : Git) (r : AgentRun) (d : String) : Prop :=
  (r.fate.writes = true ∧ r.base.hostVisible = true ∧ r.base.projectRoot = none ∧
    (git.apply d.toList r.base.workspace.files).isSome) ∨
  git.apply d.toList r.base.freshWorkspace.files = some r.base.freshWorkspace.files

namespace Session

variable (git : Git) (s : Session)

def ReportOk : ℕ × Action → Prop
  | (i, .report _) => ∀ r, s.reporting i = some r → ∀ w,
      workspaceAtEnd r.replies r.resumed = some w →
      r.Captures git w ∧ ∀ d, r.gitDiff git = some d → d ≠ "" → r.Lands git d
  | _ => True

/-- A task is handed out in the sandbox where its completed dependencies ran, but for those that
changed nothing. -/
def HandOk : ℕ × Action → Prop
  | (i, .worker (.layer _ (.ok _))) =>
    s.OfDependencies (fun d sandbox => ∀ r ∈ s.delivered, r.task = d →
      r.gitDiff git = some "" ∨ r.sandbox = sandbox) i
  | _ => True

def StepOk (e : ℕ × Action) : Prop := s.ReportOk git e ∧ s.HandOk git e

end Session

/-! ### One run -/

theorem base_afterwards (git : Git) (fate : ApplyFate) (layer : SandboxLayer) (diff : Text) :
    (match applyDiffToSandbox git fate layer diff with
      | .ok layer' => layer'
      | .error _ => layer) =
      if fate.writes then (hostApply git layer diff).getD layer else layer := by
  rw [applyDiffToSandbox]
  cases fate.writes with
  | false =>
    simp only [Bool.false_eq_true, if_false]
    cases fate.socket <;> rfl
  | true =>
    simp only [if_true]
    cases hostApply git layer diff with
    | some layer' => rfl
    | none => cases fate.socket <;> rfl

namespace AgentRun

variable {git : Git} {r : AgentRun} {w : Workspace} {d : String}

theorem outcome_of_end (h : workspaceAtEnd r.replies r.resumed = some w) :
    r.outcome git = .ok ⟨true, withHostDiff r.mode r.hostDiff
      ((captureGitDiff git r.capture w).1.toOption.map String.ofList), none⟩ := by
  rw [outcome, execute, execute_of_workspaceAtEnd h]
  rfl

theorem left_of_end (h : workspaceAtEnd r.replies r.resumed = some w) :
    r.left git = (captureGitDiff git r.capture w).2 := by
  rw [left, execute, execute_of_workspaceAtEnd h]

theorem gitDiff_of_end (h : workspaceAtEnd r.replies r.resumed = some w) :
    r.gitDiff git = withHostDiff r.mode r.hostDiff
      ((captureGitDiff git r.capture w).1.toOption.map String.ofList) := by
  rw [gitDiff, outcome_of_end h]
  rfl

theorem exists_end_of_success {o : ExecOutcome} (h : r.outcome git = .ok o)
    (hsuccess : o.success = true) : ∃ w, workspaceAtEnd r.replies r.resumed = some w := by
  cases hend : workspaceAtEnd r.replies r.resumed with
  | some w => exact ⟨w, rfl⟩
  | none =>
    rw [outcome] at h
    cases hrun : (r.execute git).1 with
    | error e =>
      rw [hrun] at h
      cases h
    | ok result =>
      have hfailed := execute_of_no_end hend hrun
      rw [hrun] at h
      obtain rfl := Except.ok.inj h
      rw [show result.success = true from hsuccess] at hfailed
      cases hfailed

theorem withHostDiff_blank {mode : PoolMode} {hostDiff blank : Option String}
    (hblank : blank.getD "" = "") :
    withHostDiff mode hostDiff blank =
      if mode = .standard ∧ ∃ d, hostDiff = some d ∧ d ≠ "" then hostDiff else blank := by
  cases mode with
  | full =>
    rw [if_neg (fun h => by cases h.1)]
    rfl
  | standard =>
    cases hostDiff with
    | none =>
      rw [if_neg (fun h => by obtain ⟨-, d, hd, -⟩ := h; cases hd)]
      exact if_pos hblank
    | some d =>
      refine (if_pos hblank).trans ?_
      by_cases hd : d = ""
      · refine (if_pos hd).trans (if_neg ?_).symm
        rintro ⟨-, d', hd', hne⟩
        exact hne (Option.some.inj hd' ▸ hd)
      · exact (if_neg hd).trans (if_pos ⟨rfl, d, rfl, hd⟩).symm

theorem captures_iff (h : workspaceAtEnd r.replies r.resumed = some w) :
    (∃ d, r.gitDiff git = some d ∧
      (d = "" → git.visible (r.left git) = git.visible r.found)) ↔ r.Captures git w := by
  rw [gitDiff_of_end h, left_of_end h]
  by_cases hshows : ∃ out, Shows git r.capture w out
  · obtain ⟨out, hout⟩ := hshows
    refine iff_of_true ?_ (.inl ⟨out, hout⟩)
    have hne : String.ofList (trim out) ≠ "" := by
      intro hempty
      have htrim : trim out = [] := by simpa using congrArg String.toList hempty
      have hmarked := hout.marked
      rw [htrim] at hmarked
      exact absurd hmarked (by decide)
    rw [captureGitDiff_of_shows hout]
    refine ⟨String.ofList (trim out), ?_, fun hempty => absurd hempty hne⟩
    cases r.mode with
    | full => rfl
    | standard => exact if_neg hne
  · by_cases hhost : r.mode = .standard ∧ ∃ d, r.hostDiff = some d ∧ d ≠ ""
    · -- the capture gives no diff, and the host does
      refine iff_of_true ?_ (.inr (.inl hhost))
      have hblank : ((captureGitDiff git r.capture w).1.toOption.map String.ofList).getD "" = "" := by
        by_cases hanswered : Answered git r.capture w
        · rw [captureGitDiff_of_not_shows hanswered (not_exists.mp hshows)]
          rfl
        · obtain ⟨e, he⟩ := captureGitDiff_of_not_answered hanswered
          rw [he]
          rfl
      rw [withHostDiff_blank hblank, if_pos hhost]
      obtain ⟨-, d, hd, hne⟩ := hhost
      exact ⟨d, hd, fun hempty => absurd hempty hne⟩
    · rw [Captures, or_iff_right hshows, or_iff_right hhost]
      by_cases hanswered : Answered git r.capture w
      · rw [captureGitDiff_of_not_shows hanswered (not_exists.mp hshows), withHostDiff_blank rfl,
          if_neg hhost]
        constructor
        · rintro ⟨d, hd, hsame⟩
          exact ⟨hanswered, hsame (Option.some.inj hd).symm⟩
        · rintro ⟨-, hsame⟩
          exact ⟨"", rfl, fun _ => hsame⟩
      · obtain ⟨e, he⟩ := captureGitDiff_of_not_answered hanswered
        rw [he, withHostDiff_blank rfl, if_neg hhost]
        constructor
        · rintro ⟨d, hd, -⟩
          cases hd
        · exact fun hright => absurd hright.1 hanswered

theorem applied_of_diff (h : workspaceAtEnd r.replies r.resumed = some w)
    (hd : r.gitDiff git = some d) (hne : d ≠ "") :
    r.applied git =
      if r.fate.writes then (hostApply git r.base d.toList).getD r.base else r.base := by
  rw [gitDiff_of_end h] at hd
  rw [applied, outcome_of_end h, hd]
  simp only [hne, if_false]
  exact base_afterwards git r.fate r.base d.toList

theorem lands_iff (h : workspaceAtEnd r.replies r.resumed = some w)
    (hd : r.gitDiff git = some d) (hne : d ≠ "") :
    git.apply d.toList r.base.freshWorkspace.files = some (r.applied git).freshWorkspace.files ↔
      r.Lands git d := by
  rw [applied_of_diff h hd hne, Lands]
  by_cases happlies : r.fate.writes = true ∧ r.base.hostVisible = true ∧
      (git.apply d.toList r.base.workspace.files).isSome = true
  · obtain ⟨hwrites, hvisible, hsome⟩ := happlies
    obtain ⟨files, hfiles⟩ := Option.isSome_iff_exists.mp hsome
    rw [if_pos hwrites, hostApply, if_pos hvisible, hfiles]
    rw [Option.map_some, Option.getD_some, SandboxLayer.freshWorkspace, SandboxLayer.freshWorkspace]
    cases r.base.projectRoot with
    | none => exact iff_of_true hfiles (.inl ⟨hwrites, hvisible, rfl, rfl⟩)
    | some root =>
      -- what was changed is not what the containers start from
      constructor
      · exact .inr
      · rintro (⟨-, -, hnone, -⟩ | hsame)
        · cases hnone
        · exact hsame
  · have hafter : (if r.fate.writes then (hostApply git r.base d.toList).getD r.base
        else r.base) = r.base := by
      split
      · next hwrites =>
        rw [hostApply]
        split
        · next hvisible =>
          cases hfiles : git.apply d.toList r.base.workspace.files with
          | none => rfl
          | some files =>
            exact absurd ⟨hwrites, hvisible, by rw [hfiles]; rfl⟩ happlies
        · rfl
      · rfl
    rw [hafter]
    constructor
    · exact .inr
    · rintro (⟨hwrites, hvisible, -, hsome⟩ | hsame)
      · exact absurd ⟨hwrites, hvisible, hsome⟩ happlies
      · exact hsame

/-- **One run.**  Its work comes to be in the base of its sandbox exactly when its diff is captured
and lands. -/
theorem visibleIn_iff (h : workspaceAtEnd r.replies r.resumed = some w) :
    r.VisibleIn git r.sandbox ↔
      r.Captures git w ∧ ∀ d, r.gitDiff git = some d → d ≠ "" → r.Lands git d := by
  rw [← captures_iff h]
  constructor
  · rintro ⟨d, hd, hvisible⟩
    refine ⟨⟨d, hd, fun hempty => ?_⟩, fun d' hd' hne => ?_⟩
    · rwa [if_pos hempty] at hvisible
    · obtain rfl := Option.some.inj (hd.symm.trans hd')
      rw [if_neg hne] at hvisible
      exact (lands_iff h hd hne).mp hvisible.2
  · rintro ⟨⟨d, hd, hsame⟩, hlands⟩
    refine ⟨d, hd, ?_⟩
    split
    · next hempty => exact hsame hempty
    · next hne => exact ⟨rfl, (lands_iff h hd hne).mpr (hlands d hd hne)⟩

theorem VisibleIn.moved_iff (h : r.VisibleIn git r.sandbox) (sandbox : SandboxName) :
    r.VisibleIn git sandbox ↔ r.gitDiff git = some "" ∨ r.sandbox = sandbox := by
  obtain ⟨d, hd, hvisible⟩ := h
  constructor
  · rintro ⟨d', hd', hthere⟩
    obtain rfl := Option.some.inj (hd.symm.trans hd')
    split at hthere
    · next hempty => exact .inl (hempty ▸ hd)
    · exact .inr hthere.1
  · rintro (hempty | rfl)
    · obtain rfl := Option.some.inj (hd.symm.trans hempty)
      exact ⟨"", hd, hvisible⟩
    · exact ⟨d, hd, hvisible⟩

end AgentRun

theorem handleTaskCompletion_failure_completed {s : Scheduler} {result : AgentResult}
    (h : result.success = false) : (s.handleTaskCompletion result).completed = s.completed := by
  rw [Scheduler.handleTaskCompletion]
  simp only [h, Bool.false_eq_true, if_false]
  rw [Scheduler.skipDependents, (Scheduler.skipLoop_spec _ _).frame]

namespace WorkerPool

variable {p p' : WorkerPool} {i : ℕ} {label : Label}

/-- The tasks completed after a step of worker `i`. -/
def completedBy (p : WorkerPool) (i : ℕ) (label : Label) : Finset TaskId :=
  match p.workers[i]?, label with
  | some (.executing _ _ _ agent _), .outcome _ (.ok o) =>
    if o.success then insert (agent.taskId.getD "") p.scheduler.completed
    else p.scheduler.completed
  | _, _ => p.scheduler.completed

theorem completed_getReadyTask (s : Scheduler) (sandbox : SandboxName) :
    (s.getReadyTask sandbox).1.completed = s.completed := by
  rw [Scheduler.getReadyTask]
  split <;> rfl

theorem completed_finish (sandbox : SandboxName) (agent : AgentHandle) (t : TaskId) (now : ℕ)
    (o : ExecOutcome) : (p.finish i sandbox agent t now o).scheduler.completed =
      if o.success then insert (agent.taskId.getD "") p.scheduler.completed
      else p.scheduler.completed := by
  let result : AgentResult := ⟨agent.taskId.getD "", o.success, o.gitDiff, o.error⟩
  show (p.scheduler.handleTaskCompletion result).completed = _
  split
  · next hsuccess =>
    have hresult : result.success = true := hsuccess
    obtain ⟨dc, rq, hframe⟩ := p.scheduler.handleTaskCompletion_frame hresult
    rw [hframe]
  · next hfailure => exact handleTaskCompletion_failure_completed (Bool.not_eq_true _ ▸ hfailure)

theorem step_spec (h : p.step i label = some p') :
    (∃ w, p'.workers = p.workers.set i w) ∧ p'.scheduler.completed = p.completedBy i label := by
  unfold step at h
  unfold completedBy
  split at h
  · next sandbox rest found hw =>
    rw [hw]
    have hready := completed_getReadyTask p.scheduler sandbox
    split at h
    · next s t hget =>
      rw [hget] at hready
      obtain rfl := Option.some.inj h
      exact ⟨⟨_, rfl⟩, hready⟩
    · obtain rfl := Option.some.inj h
      exact ⟨⟨_, rfl⟩, rfl⟩
  · next hw =>
    rw [hw]
    obtain rfl := Option.some.inj h
    exact ⟨⟨_, rfl⟩, rfl⟩
  · next hw =>
    rw [hw]
    split at h
    · obtain rfl := Option.some.inj h
      exact ⟨⟨_, rfl⟩, rfl⟩
    · obtain rfl := Option.some.inj h
      exact ⟨⟨_, rfl⟩, rfl⟩
  · next hw =>
    rw [hw]
    split at h
    · obtain rfl := Option.some.inj h
      exact ⟨⟨_, rfl⟩, rfl⟩
    · obtain rfl := Option.some.inj h
      exact ⟨⟨_, rfl⟩, rfl⟩
  · next hw =>
    rw [hw]
    obtain rfl := Option.some.inj h
    exact ⟨⟨_, rfl⟩, rfl⟩
  · next hw =>
    rw [hw]
    obtain rfl := Option.some.inj h
    exact ⟨⟨_, rfl⟩, rfl⟩
  · next hw =>
    rw [hw]
    obtain rfl := Option.some.inj h
    exact ⟨⟨_, rfl⟩, completed_finish _ _ _ _ _⟩
  · next hw =>
    rw [hw]
    obtain rfl := Option.some.inj h
    exact ⟨⟨_, rfl⟩, handleTaskCompletion_failure_completed rfl⟩
  · cases h

theorem outcome_of_step {t : TaskId} {sandbox : SandboxName} {rest : List SandboxName}
    {agent : AgentHandle} {assigned : agent.taskId = some t}
    (h : p.step i label = some p')
    (hw : p.workers[i]? = some (.executing t sandbox rest agent assigned)) :
    ∃ now o, label = .outcome now o := by
  unfold step at h
  rw [hw] at h
  cases label with
  | outcome now o => exact ⟨now, o, rfl⟩
  | poll => cases h
  | health now => cases h
  | layer now o => cases h

end WorkerPool

namespace Session

variable {git : Git} {s s' : Session} {i : ℕ} {a : Action} {e : ℕ × Action}

def Awaiting (s : Session) (i : ℕ) (r : AgentRun) : Prop :=
  ∃ t rest agent, ∃ assigned : agent.taskId = some t,
    s.pool.workers[i]? = some (.executing t r.sandbox rest agent assigned) ∧
      agent.taskId.getD "" = r.task

/-- What a step of worker `i` does. -/
inductive Effect (git : Git) (s : Session) (i : ℕ) : Action → Session → Prop
  | moved {a : Action} {p : WorkerPool} (w : Worker) (workers : p.workers = s.pool.workers.set i w)
      (completed : p.scheduler.completed = s.pool.scheduler.completed)
      (free : ∀ r, s.reporting i = some r → ¬ s.Awaiting i r) (silent : ∀ now, a ≠ .report now) :
      Effect git s i a (s.setPool p)
  | held {a : Action} (r : AgentRun) (awaiting : s.Awaiting i r) (silent : ∀ now, a ≠ .report now) :
      Effect git s i a (s.hold git i r)
  | delivered (now : ℕ) (r : AgentRun) {o : ExecOutcome} {p : WorkerPool} (w : Worker)
      (reporting : s.reporting i = some r) (outcome : r.outcome git = .ok o)
      (workers : p.workers = s.pool.workers.set i w)
      (completed : s.Awaiting i r → p.scheduler.completed =
        if o.success then insert r.task s.pool.scheduler.completed
        else s.pool.scheduler.completed) : Effect git s i (.report now) (s.deliver i r o p)

theorem step_effect (h : s.step git (i, a) = some s') : Effect git s i a s' := by
  cases a with
  | worker label =>
    have hsuccess : ∀ now o, label ≠ .outcome now o := by
      rintro now o rfl
      cases h
    have hpool : (s.pool.step i label).map s.setPool = some s' := by
      cases label with
      | outcome now o => exact absurd rfl (hsuccess now o)
      | poll => exact h
      | health now => exact h
      | layer now o => exact h
    obtain ⟨p, hp, rfl⟩ := Option.map_eq_some_iff.mp hpool
    obtain ⟨⟨w, hw⟩, hcompleted⟩ := WorkerPool.step_spec hp
    refine .moved w hw ?_ ?_ (fun now hreport => by cases hreport)
    · rw [hcompleted]
      unfold WorkerPool.completedBy
      split
      · next now o _ => exact absurd rfl (hsuccess now (.ok o))
      · rfl
    · rintro r - ⟨t, rest, agent, assigned, hexecuting, -⟩
      obtain ⟨now, o, rfl⟩ := WorkerPool.outcome_of_step hp hexecuting
      exact hsuccess now o rfl
  | execute now attempt =>
    rw [step] at h
    split at h
    · next t sandbox rest agent assigned hw hfree =>
      simp only at h
      split at h
      · obtain ⟨p, hp, rfl⟩ := Option.map_eq_some_iff.mp h
        obtain ⟨⟨w, hworkers⟩, hcompleted⟩ := WorkerPool.step_spec hp
        refine .moved w hworkers ?_ ?_ (fun now hreport => by cases hreport)
        · rw [hcompleted]
          unfold WorkerPool.completedBy
          rw [hw]
        · intro r hr
          rw [hfree] at hr
          cases hr
      · obtain rfl := Option.some.inj h
        exact .held _ ⟨t, rest, agent, assigned, hw, rfl⟩ (fun now hreport => by cases hreport)
    · cases h
  | report now =>
    rw [step] at h
    split at h
    · cases h
    · next r hr =>
      split at h
      · cases h
      · next o ho =>
        obtain ⟨p, hp, rfl⟩ := Option.map_eq_some_iff.mp h
        obtain ⟨⟨w, hworkers⟩, hcompleted⟩ := WorkerPool.step_spec hp
        refine .delivered now r w hr ho hworkers ?_
        rintro ⟨t, rest, agent, assigned, hw, htask⟩
        rw [hcompleted, ← htask]
        unfold WorkerPool.completedBy
        rw [hw]

/-- Completed tasks have been reported, by runs whose work is in the base of their sandbox. -/
structure Sound (git : Git) (s : Session) : Prop where
  awaiting : ∀ i r, s.reporting i = some r → s.Awaiting i r
  recorded : ∀ d ∈ s.pool.scheduler.completed, ∃ r ∈ s.delivered, r.task = d
  visible : ∀ r ∈ s.delivered, r.VisibleIn git r.sandbox

theorem Sound.counted (h : Sound git s) : s.Counted git :=
  fun d hd => ⟨h.recorded d hd, fun r hr _ => h.visible r hr⟩

theorem sound_start {pool : WorkerPool} (hpool : pool.scheduler.completed = ∅)
    (layers : SandboxName → SandboxLayer) : Sound git (start pool layers) where
  awaiting i r hr := by cases hr
  recorded d hd := by
    rw [show (start pool layers).pool.scheduler.completed = ∅ from hpool] at hd
    exact absurd hd (Finset.notMem_empty d)
  visible := List.forall_mem_nil _

theorem Awaiting.of_set {p : WorkerPool} {w : Worker} {j : ℕ} {r : AgentRun}
    (h : s.Awaiting j r) (hw : p.workers = s.pool.workers.set i w) (hji : j ≠ i)
    (hs' : s'.pool = p) : s'.Awaiting j r := by
  obtain ⟨t, rest, agent, assigned, hexecuting, htask⟩ := h
  refine ⟨t, rest, agent, assigned, ?_, htask⟩
  rw [hs', hw, List.getElem?_set_ne (Ne.symm hji)]
  exact hexecuting

@[simp] theorem hold_reporting_self (r : AgentRun) :
    (s.hold git i r).reporting i = some r := Function.update_self ..

theorem hold_reporting_of_ne {j : ℕ} (hji : j ≠ i) (r : AgentRun) :
    (s.hold git i r).reporting j = s.reporting j := Function.update_of_ne hji ..

@[simp] theorem deliver_reporting_self (r : AgentRun) (o : ExecOutcome) (p : WorkerPool) :
    (s.deliver i r o p).reporting i = none := Function.update_self ..

theorem deliver_reporting_of_ne {j : ℕ} (hji : j ≠ i) (r : AgentRun) (o : ExecOutcome)
    (p : WorkerPool) : (s.deliver i r o p).reporting j = s.reporting j :=
  Function.update_of_ne hji ..

/-- **A step** that loses no diff keeps the completed work visible. -/
theorem Sound.step (h : Sound git s) (hok : s.ReportOk git e) (hstep : s.step git e = some s') :
    Sound git s' := by
  obtain ⟨i, a⟩ := e
  have heffect := step_effect hstep
  cases heffect with
  | moved w hworkers hcompleted hfree =>
    refine ⟨?_, ?_, h.visible⟩
    · intro j r hr
      have hji : j ≠ i := by
        rintro rfl
        exact hfree r hr (h.awaiting j r hr)
      exact (h.awaiting j r hr).of_set hworkers hji rfl
    · intro d hd
      rw [show (s.setPool _).pool.scheduler.completed = _ from hcompleted] at hd
      exact h.recorded d hd
  | held r hawaiting =>
    refine ⟨?_, h.recorded, h.visible⟩
    intro j q hq
    by_cases hji : j = i
    · subst hji
      rw [hold_reporting_self] at hq
      obtain rfl := Option.some.inj hq
      exact hawaiting
    · rw [hold_reporting_of_ne hji] at hq
      exact h.awaiting j q hq
  | @delivered now r o p w hreporting houtcome hworkers hcompleted =>
    refine ⟨?_, ?_, ?_⟩
    · intro j q hq
      by_cases hji : j = i
      · subst hji
        rw [deliver_reporting_self] at hq
        cases hq
      · rw [deliver_reporting_of_ne hji] at hq
        exact (h.awaiting j q hq).of_set hworkers hji rfl
    · intro d hd
      rw [show (s.deliver i r o p).pool.scheduler.completed = _ from
        hcompleted (h.awaiting i r hreporting)] at hd
      show ∃ q ∈ (if o.success then r :: s.delivered else s.delivered), q.task = d
      cases hsuccess : o.success with
      | false =>
        rw [hsuccess] at hd
        exact h.recorded d hd
      | true =>
        rw [hsuccess] at hd
        rcases Finset.mem_insert.mp hd with rfl | hd
        · exact ⟨r, List.mem_cons_self, rfl⟩
        · obtain ⟨q, hq, htask⟩ := h.recorded d hd
          exact ⟨q, List.mem_cons_of_mem _ hq, htask⟩
    · show ∀ q ∈ (if o.success then r :: s.delivered else s.delivered), q.VisibleIn git q.sandbox
      split
      · next hsuccess =>
        obtain ⟨w, hend⟩ := AgentRun.exists_end_of_success houtcome hsuccess
        exact List.forall_mem_cons.mpr
          ⟨(AgentRun.visibleIn_iff hend).mpr (hok r hreporting w hend), h.visible⟩
      · exact h.visible

theorem Sound.not_counted (h : Sound git s) (hbad : ¬ s.ReportOk git e)
    (hstep : s.step git e = some s') : ¬ s'.Counted git := by
  obtain ⟨i, a⟩ := e
  have hsilent : (∀ now, a ≠ .report now) → s.ReportOk git (i, a) := by
    intro hne
    cases a with
    | report now => exact absurd rfl (hne now)
    | worker label => exact trivial
    | execute now attempt => exact trivial
  have heffect := step_effect hstep
  cases heffect with
  | moved _ _ _ _ hne => exact absurd (hsilent hne) hbad
  | held _ _ hne => exact absurd (hsilent hne) hbad
  | @delivered now r o p w hreporting houtcome hworkers hcompleted =>
    intro hcounted
    refine hbad ?_
    intro q hq w hend
    obtain rfl := Option.some.inj (hreporting.symm.trans hq)
    have hsuccess : o.success = true := by
      rw [AgentRun.outcome_of_end hend] at houtcome
      exact congrArg ExecOutcome.success (Except.ok.inj houtcome).symm
    have hdone : r.task ∈ (s.deliver i r o p).pool.scheduler.completed := by
      rw [show (s.deliver i r o p).pool.scheduler.completed = _ from
        hcompleted (h.awaiting i r hreporting), hsuccess]
      exact Finset.mem_insert_self _ _
    have hmem : r ∈ (s.deliver i r o p).delivered := by
      show r ∈ (if o.success then r :: s.delivered else s.delivered)
      rw [hsuccess]
      exact List.mem_cons_self
    exact (AgentRun.visibleIn_iff hend).mp ((hcounted _ hdone).2 r hmem rfl)

theorem Counted.sees_iff (h : s.Counted git) (e : ℕ × Action) : s.Sees git e ↔ s.HandOk git e := by
  obtain ⟨i, a⟩ := e
  cases a with
  | execute now attempt => exact Iff.rfl
  | report now => exact Iff.rfl
  | worker label =>
    cases label with
    | poll => exact Iff.rfl
    | health now => exact Iff.rfl
    | outcome now o => exact Iff.rfl
    | layer now layer =>
      cases layer with
      | error e => exact Iff.rfl
      | ok layer =>
        constructor
        · intro hsees t sandbox rest hw task htask d hd hdone r hr hrd
          have hvisible := (hsees t sandbox rest hw task htask d hd hdone).2 r hr hrd
          exact (((h d hdone).2 r hr hrd).moved_iff sandbox).mp hvisible
        · intro hhand t sandbox rest hw task htask d hd hdone
          refine ⟨(h d hdone).1, fun r hr hrd => ?_⟩
          exact (((h d hdone).2 r hr hrd).moved_iff sandbox).mpr
            (hhand t sandbox rest hw task htask d hd hdone r hr hrd)

/-- **The work of the dependencies is visible**: in every run of the workers, completed work is
in the base of its sandbox and every task handed out is given the work of its completed
dependencies if and only if every successful run is reported with its diff captured and landed,
and every task is handed out in the sandbox of its dependencies. -/
theorem visible_iff (git : Git) (mode : PoolMode) (maxAgents : ℕ) (g : TaskGraph)
    (hints : HashMap TaskId SandboxName) (sandboxes : List SandboxName)
    (layers : SandboxName → SandboxLayer) {past : List (Session × (ℕ × Action))} {s : Session}
    (h : Execution (Session.step git)
      (start (WorkerPool.start mode maxAgents g hints sandboxes) layers) past s) :
    ((∀ e ∈ past, e.1.Counted git ∧ e.1.Sees git e.2) ∧ s.Counted git) ↔
      ∀ e ∈ past, e.1.StepOk git e.2 := by
  have hcounted : ((∀ e ∈ past, e.1.Counted git) ∧ s.Counted git) ↔
      ∀ e ∈ past, e.1.ReportOk git e.2 :=
    h.sound_iff (sound_start rfl layers) (fun _ _ _ hsound hok hs => hsound.step hok hs)
      (fun _ hsound => hsound.counted) fun _ _ _ hsound hbad hs => hsound.not_counted hbad hs
  constructor
  · rintro ⟨hall, hlast⟩ e he
    have hreports := hcounted.mp ⟨fun e he => (hall e he).1, hlast⟩
    exact ⟨hreports e he, ((hall e he).1.sees_iff e.2).mp (hall e he).2⟩
  · intro hok
    obtain ⟨hall, hlast⟩ := hcounted.mpr fun e he => (hok e he).1
    exact ⟨fun e he => ⟨hall e he, ((hall e he).sees_iff e.2).mpr (hok e he).2⟩, hlast⟩

end Session

def twoTasks : TaskGraph :=
  ⟨[⟨"edit", "write the file", [], none⟩, ⟨"next", "read the file", ["edit"], none⟩]⟩

/-- The sandbox's own workspace is visible on the host, and there is no project root. -/
def ownLayer : SandboxLayer := { projectRoot := none, workspace := fresh, hostVisible := true }

/-- The agent writes the file, and everything does its work. -/
def editAttempt : Attempt where
  found := createAgentLayer editGit .completed fresh
  resumed := createAgentLayer editGit .completed fresh
  replies := [.calls [⟨writeTwo, none⟩], .finished]
  capture := ⟨.completed, .completed⟩
  hostDiff := none
  fate := ⟨true, none⟩

def agentLayer (sandbox : SandboxName) : AgentLayer := ⟨"agent-1", sandbox, "container-1"⟩

def editRun (sandbox : SandboxName) : AgentRun :=
  { editAttempt with mode := .full, task := "edit", sandbox := sandbox, base := ownLayer }

def take (sandbox : SandboxName) : List (ℕ × Action) :=
  [(0, .worker .poll), (0, .worker (.health 0)), (0, .worker (.layer 0 (.ok (agentLayer sandbox))))]

def twoSession (hints : HashMap TaskId SandboxName) (sandboxes : List SandboxName) : Session :=
  .start (.start .full 1 twoTasks hints sandboxes) fun _ => ownLayer

theorem gitDiff_editRun (sandbox : SandboxName) :
    (editRun sandbox).gitDiff editGit = some (String.ofList (trim editDiff)) := by
  have hexecute : (editRun sandbox).execute editGit = runEdit writeTwo := rfl
  rw [AgentRun.gitDiff, AgentRun.outcome, hexecute, runEdit_writeTwo]
  rfl

theorem editDiff_ne_empty : String.ofList (trim editDiff) ≠ "" := by decide

theorem lands_editRun (sandbox : SandboxName) :
    (editRun sandbox).Lands editGit (String.ofList (trim editDiff)) := by
  have hends : editDiff = [] ∨ editDiff = endLine (trim editDiff) := by decide
  have hkept : patchFiles (trim editDiff) = patchFiles editDiff :=
    patchFiles_kept hends (by decide)
  refine .inl ⟨rfl, rfl, rfl, ?_⟩
  show (patchFiles (String.ofList (trim editDiff)).toList (oneFile "1\n".toList)).isSome = true
  rw [String.toList_ofList, hkept, patchFiles_editDiff]
  rfl

theorem delivers_editRun (sandbox : SandboxName) {w : Workspace}
    (h : workspaceAtEnd (editRun sandbox).replies (editRun sandbox).resumed = some w) :
    (editRun sandbox).Captures editGit w ∧ ∀ d, (editRun sandbox).gitDiff editGit = some d →
      d ≠ "" → (editRun sandbox).Lands editGit d := by
  constructor
  · exact (AgentRun.captures_iff h).mp
      ⟨_, gitDiff_editRun sandbox, fun hempty => absurd hempty editDiff_ne_empty⟩
  · intro d hd _
    obtain rfl := Option.some.inj ((gitDiff_editRun sandbox).symm.trans hd)
    exact lands_editRun sandbox

/-- The edit is made, its diff applied, and the next task handed out in the same sandbox. -/
theorem visible_of_edit : ∃ past s,
    Execution (Session.step editGit) (twoSession ∅ ["default"]) past s ∧ past.length = 8 ∧
      (∀ e ∈ past, e.1.Counted editGit ∧ e.1.Sees editGit e.2) ∧ s.Counted editGit := by
  have hrun : Execution.runActions (Session.step editGit)
      (take "default" ++ [(0, .execute 0 editAttempt), (0, .report 0)] ++ take "default") []
      (twoSession ∅ ["default"]) = some (_, _) := rfl
  refine ⟨_, _, .ofRun .start hrun, rfl, (Session.visible_iff editGit .full 1 twoTasks ∅ ["default"]
    (fun _ => ownLayer) (.ofRun .start hrun)).mpr ?_⟩
  refine List.forall_mem_cons.mpr ⟨⟨trivial, ?_⟩, ?_⟩
  · -- the next task is handed out
    intro t sandbox rest hw task htask d hd hdone r hr hrd
    obtain ⟨-, rfl, -⟩ := Worker.creating.inj (Option.some.inj hw)
    obtain rfl : r = editRun "default" := List.mem_singleton.mp hr
    exact .inr rfl
  refine List.forall_mem_cons.mpr ⟨⟨trivial, trivial⟩, ?_⟩
  refine List.forall_mem_cons.mpr ⟨⟨trivial, trivial⟩, ?_⟩
  refine List.forall_mem_cons.mpr ⟨⟨?_, trivial⟩, ?_⟩
  · -- the edit is reported
    intro r hr w hend
    obtain rfl : editRun "default" = r := Option.some.inj hr
    exact delivers_editRun "default" hend
  refine List.forall_mem_cons.mpr ⟨⟨trivial, trivial⟩, ?_⟩
  refine List.forall_mem_cons.mpr ⟨⟨trivial, ?_⟩, ?_⟩
  · -- the edit is handed out, when nothing is completed
    intro t sandbox rest hw task htask d hd hdone
    exact absurd hdone (Finset.notMem_empty d)
  refine List.forall_mem_cons.mpr ⟨⟨trivial, trivial⟩, ?_⟩
  exact List.forall_mem_cons.mpr ⟨⟨trivial, trivial⟩, List.forall_mem_nil _⟩

/-- **Stale files**: the next task is hinted to another sandbox, and is handed out there although
the diff of the edit is not in its base. -/
theorem not_visible : ¬ ∀ (git : Git) (mode : PoolMode) (maxAgents : ℕ) (g : TaskGraph)
    (hints : HashMap TaskId SandboxName) (sandboxes : List SandboxName)
    (layers : SandboxName → SandboxLayer) (past : List (Session × (ℕ × Action))) (s : Session),
    Execution (Session.step git)
      (.start (.start mode maxAgents g hints sandboxes) layers) past s →
    (∀ e ∈ past, e.1.Counted git ∧ e.1.Sees git e.2) ∧ s.Counted git := by
  intro hclaim
  let hints : HashMap TaskId SandboxName :=
    ((∅ : HashMap TaskId SandboxName).insert "edit" "api").insert "next" "ui"
  have hrun : Execution.runActions (Session.step editGit)
      (take "api" ++ [(0, .execute 0 editAttempt), (0, .report 0), (0, .worker .poll)] ++ take "ui")
      [] (twoSession hints ["api", "ui"]) = some (_, _) := rfl
  have hvisible := hclaim editGit .full 1 twoTasks hints ["api", "ui"] (fun _ => ownLayer) _ _
    (.ofRun .start hrun)
  obtain ⟨-, hsees⟩ := (List.forall_mem_cons.mp hvisible.1).1
  have hedit : (editRun "api").VisibleIn editGit "ui" :=
    (hsees "next" "ui" [] rfl ⟨"next", "read the file", ["edit"], none⟩ rfl "edit"
      List.mem_cons_self (Finset.mem_insert_self _ _)).2 (editRun "api") List.mem_cons_self rfl
  obtain ⟨d, hd, hthere⟩ := hedit
  obtain rfl := Option.some.inj ((gitDiff_editRun "api").symm.trans hd)
  rw [if_neg editDiff_ne_empty] at hthere
  exact absurd hthere.1 (by decide)

end Mowis.Pool
