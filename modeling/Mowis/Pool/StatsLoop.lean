import Mowis.Lib.Execution
import Mowis.Pool.Progress

/-!
# The end of layer 4

`agentd/src/orchestration/new_orchestrator.rs`: with the workers spawned, the orchestrator waits for
them, thirty minutes at most, and then for the statistics loop, which ends by a test of its own.
-/

namespace Mowis.Pool

open Mowis.Lib Mowis.Scheduling Mowis.Scheduling.Scheduler

namespace WorkerPool

variable (p : WorkerPool)

def counted : ℕ :=
  let stats := p.scheduler.getStats
  stats.completed + stats.failed + stats.skipped

/-- `completed + failed + skipped >= total_tasks && total_tasks > 0`. -/
def statsExit : Bool := p.exitTest && decide (0 < p.scheduler.getStats.totalTasks)

/-- Worker `i` leaves its loop: it found no task in a whole round and its own test is true. -/
def Exits (i : ℕ) (label : Label) : Prop :=
  label = .poll ∧ p.workers[i]? = some (.polling [] false) ∧ p.exitTest = true

end WorkerPool

structure FullRun where
  pool : WorkerPool
  panicked : Finset ℕ
  timedOut : Bool

inductive RunAction where
  | work (i : ℕ) (label : Label)
  | panics (i : ℕ)
  | timeout

namespace FullRun

variable (r : FullRun)

def start (maxAgents : ℕ) (g : TaskGraph) (hints : HashMap TaskId SandboxName)
    (sandboxes : List SandboxName) : FullRun where
  pool := .start .full maxAgents g hints sandboxes
  panicked := ∅
  timedOut := false

/-- Worker `i` has left its loop or panicked. -/
def ended (i : ℕ) : Bool :=
  match r.pool.workers[i]? with
  | some .exited => true
  | _ => decide (i ∈ r.panicked)

def othersEnded (i : ℕ) : Bool :=
  (List.range r.pool.workers.length).all fun j => j == i || r.ended j

def allEnded : Bool := (List.range r.pool.workers.length).all r.ended

/-- `timeout(worker_timeout, all_workers)` is over. -/
def joined : Bool := r.timedOut || r.allEnded

def step : RunAction → Option FullRun
  | .work i label =>
    if i ∈ r.panicked then none
    else (r.pool.step i label).map fun p => { r with pool := p }
  | .panics i =>
    if i < r.pool.workers.length ∧ r.ended i = false then
      some { r with panicked := insert i r.panicked }
    else none
  | .timeout => if r.joined then none else some { r with timedOut := true }

/-- Once every worker has ended or is given up, the statistics loop can end. -/
def Returns : Prop := r.joined = true → r.pool.statsExit = true

def AllCounted : Prop :=
  0 < r.pool.scheduler.totalTasks ∧ r.pool.scheduler.totalTasks ≤ r.pool.counted

/-- The condition on a step: the last worker to leave its loop does so in a run with a task, and
where the last one panics or the timeout fires every task is counted. -/
def StepOk : RunAction → Prop
  | .work i label => r.pool.Exits i label → r.othersEnded i = true → 0 < r.pool.scheduler.totalTasks
  | .panics i => r.othersEnded i = true → r.AllCounted
  | .timeout => r.AllCounted

end FullRun

namespace WorkerPool

variable {p p' : WorkerPool} {i : ℕ} {label : Label}

theorem statsExit_iff :
    p.statsExit = true ↔ 0 < p.scheduler.totalTasks ∧ p.scheduler.totalTasks ≤ p.counted := by
  rw [statsExit, Bool.and_eq_true, decide_eq_true_iff, and_comm]
  exact and_congr_right fun _ => decide_eq_true_iff

theorem drops_spec (hd : p.Drops i label) (hs : p.step i label = some p') :
    ∃ w t rest, p.workers[i]? = some w ∧ w.task? = some t ∧
      p'.workers = p.workers.set i (.polling rest true) ∧ p'.scheduler = p.scheduler := by
  unfold Drops at hd
  unfold step at hs
  split at hd
  · rename_i t sandbox rest now hw
    rw [hw] at hs
    simp only at hs
    split at hs
    · rename_i hh
      rw [hh] at hd
      cases hd
    · obtain rfl := Option.some.inj hs
      exact ⟨_, t, rest, hw, rfl, rfl, rfl⟩
  · rename_i t sandbox rest now e hw
    rw [hw] at hs
    obtain rfl := Option.some.inj hs
    exact ⟨_, t, rest, hw, rfl, rfl, rfl⟩
  · exact hd.elim

theorem step_change (hs : p.step i label = some p') :
    ∃ w w', p.workers[i]? = some w ∧ p'.workers = p.workers.set i w' ∧
      (Move p.scheduler w p'.scheduler w' ∨
        w'.task? = none ∧ w' ≠ .exited ∧ p'.scheduler = p.scheduler) := by
  by_cases hd : p.Drops i label
  · obtain ⟨w, t, rest, hw, -, hset, hsame⟩ := drops_spec hd hs
    exact ⟨w, _, hw, hset, .inr ⟨rfl, (by intro h; cases h), hsame⟩⟩
  · obtain ⟨w, w', hw, hset, -, -, hm⟩ := keeps_move hd hs
    exact ⟨w, w', hw, hset, .inl hm⟩

theorem step_grows (hs : p.step i label = some p') : Grows p.scheduler p'.scheduler := by
  obtain ⟨w, w', -, -, hm | ⟨-, -, hsame⟩⟩ := step_change hs
  · exact hm.grows
  · rw [hsame]
    exact ⟨Finset.Subset.refl _, fun _ ht => ht, Finset.Subset.refl _, rfl⟩

theorem step_workers_length (hs : p.step i label = some p') :
    p'.workers.length = p.workers.length := by
  obtain ⟨w, w', -, hset, -⟩ := step_change hs
  rw [hset, List.length_set]

theorem step_workers_ne (hs : p.step i label = some p') {j : ℕ} (hj : j ≠ i) :
    p'.workers[j]? = p.workers[j]? := by
  obtain ⟨w, w', -, hset, -⟩ := step_change hs
  rw [hset, List.getElem?_set_ne (Ne.symm hj)]

theorem statsExit_of_grows (h : Grows p.scheduler p'.scheduler) (he : p.statsExit = true) :
    p'.statsExit = true := by
  rw [WorkerPool.statsExit, Bool.and_eq_true] at he ⊢
  have htotal : 0 < p.scheduler.totalTasks := of_decide_eq_true he.2
  rw [← h.totalTasks] at htotal
  exact ⟨h.exitTest he.1, decide_eq_true htotal⟩

theorem exits_iff (hs : p.step i label = some p') :
    p'.workers[i]? = some .exited ↔ p.Exits i label := by
  obtain ⟨w, w', hw, hset, -⟩ := step_change hs
  obtain ⟨hi, -⟩ := List.getElem?_eq_some_iff.mp hw
  constructor
  · intro he
    unfold step at hs
    split at hs
    case h_3 hw₀ =>
      split at hs
      · rename_i hexit
        exact ⟨rfl, hw₀, hexit⟩
      · obtain rfl := Option.some.inj hs
        simp [setWorker, hi] at he
    all_goals
      try split at hs
      all_goals first
        | (obtain rfl := Option.some.inj hs
           simp [setWorker, beginTask, finish, reportError, hi] at he)
        | cases hs
  · rintro ⟨rfl, hw₀, hexit⟩
    unfold step at hs
    rw [hw₀] at hs
    simp only [hexit, if_true] at hs
    obtain rfl := Option.some.inj hs
    exact List.getElem?_set_self hi

end WorkerPool

namespace FullRun

variable {r r' : FullRun} {i : ℕ} {label : Label}

theorem ended_iff : r.ended i = true ↔ r.pool.workers[i]? = some .exited ∨ i ∈ r.panicked := by
  unfold ended
  split
  · rename_i hw
    simp [hw]
  · rename_i hw
    rw [decide_eq_true_iff]
    exact ⟨.inr, fun h => h.resolve_left hw⟩

theorem allEnded_iff : r.allEnded = true ↔ ∀ j < r.pool.workers.length, r.ended j = true := by
  simp [allEnded]

theorem othersEnded_iff :
    r.othersEnded i = true ↔ ∀ j < r.pool.workers.length, j ≠ i → r.ended j = true := by
  simp only [othersEnded, List.all_eq_true, List.mem_range, Bool.or_eq_true, beq_iff_eq]
  exact forall₂_congr fun j _ => ⟨fun h hj => h.resolve_left hj, fun h => or_iff_not_imp_left.mpr h⟩

theorem allEnded_change (hlen : r'.pool.workers.length = r.pool.workers.length)
    (hi : i < r.pool.workers.length) (hne : ∀ j, j ≠ i → r'.ended j = r.ended j) :
    r'.allEnded = true ↔ r'.ended i = true ∧ r.othersEnded i = true := by
  rw [allEnded_iff, othersEnded_iff, hlen]
  constructor
  · intro h
    exact ⟨h i hi, fun j hj hji => by rw [← hne j hji]; exact h j hj⟩
  · rintro ⟨hself, hothers⟩ j hj
    by_cases hji : j = i
    · rw [hji]
      exact hself
    · rw [hne j hji]
      exact hothers j hj hji

theorem step_work (hs : r.step (.work i label) = some r') :
    i ∉ r.panicked ∧ ∃ p, r.pool.step i label = some p ∧ r' = { r with pool := p } := by
  rw [step] at hs
  split at hs
  · cases hs
  · rename_i hi
    obtain ⟨p, hp, rfl⟩ := Option.map_eq_some_iff.mp hs
    exact ⟨hi, p, hp, rfl⟩

theorem step_panics (hs : r.step (.panics i) = some r') :
    i < r.pool.workers.length ∧ r.ended i = false ∧
      r' = { r with panicked := insert i r.panicked } := by
  rw [step] at hs
  split at hs
  · rename_i hi
    exact ⟨hi.1, hi.2, (Option.some.inj hs).symm⟩
  · cases hs

theorem step_timeout (hs : r.step .timeout = some r') : r' = { r with timedOut := true } := by
  rw [step] at hs
  split at hs
  · cases hs
  · exact (Option.some.inj hs).symm

theorem joined_work (hs : r.step (.work i label) = some r') :
    r'.joined = true ↔ r.timedOut = true ∨ r.pool.Exits i label ∧ r.othersEnded i = true := by
  obtain ⟨hi, p, hp, rfl⟩ := step_work hs
  obtain ⟨w, w', hw, hset, -⟩ := WorkerPool.step_change hp
  obtain ⟨hlt, -⟩ := List.getElem?_eq_some_iff.mp hw
  have hne : ∀ j, j ≠ i → FullRun.ended { r with pool := p } j = r.ended j := by
    intro j hj
    rw [Bool.eq_iff_iff, ended_iff, ended_iff, WorkerPool.step_workers_ne hp hj]
  rw [joined, Bool.or_eq_true,
    allEnded_change (WorkerPool.step_workers_length hp) hlt hne, ended_iff,
    WorkerPool.exits_iff hp, or_iff_left hi]

theorem joined_panics (hs : r.step (.panics i) = some r') :
    r'.joined = true ↔ r.timedOut = true ∨ r.othersEnded i = true := by
  obtain ⟨hlt, -, hr'⟩ := step_panics hs
  have hlen : r'.pool.workers.length = r.pool.workers.length := by rw [hr']
  have hne : ∀ j, j ≠ i → r'.ended j = r.ended j := by
    intro j hj
    rw [Bool.eq_iff_iff, ended_iff, ended_iff, hr', Finset.mem_insert, or_iff_right hj]
  have hself : r'.ended i = true := by
    rw [ended_iff, hr']
    exact .inr (Finset.mem_insert_self _ _)
  rw [joined, Bool.or_eq_true, allEnded_change hlen hlt hne, hself, hr']
  exact or_congr_right (and_iff_right rfl)

theorem returns_step {a : RunAction} (h : r.Returns) (hs : r.step a = some r') :
    r'.Returns ↔ r.StepOk a := by
  cases a with
  | work i label =>
    obtain ⟨-, p, hp, rfl⟩ := step_work hs
    have hgrows := WorkerPool.step_grows hp
    rw [Returns, joined_work hs]
    constructor
    · intro hret hexits hothers
      have := (WorkerPool.statsExit_iff.mp (hret (.inr ⟨hexits, hothers⟩))).1
      rwa [hgrows.totalTasks] at this
    · rintro hok (htimed | ⟨hexits, hothers⟩)
      · exact WorkerPool.statsExit_of_grows hgrows (h (by rw [joined, htimed]; rfl))
      · refine WorkerPool.statsExit_of_grows hgrows ?_
        rw [WorkerPool.statsExit, hexits.2.2]
        exact decide_eq_true (hok hexits hothers)
  | panics i =>
    rw [Returns, joined_panics hs]
    obtain ⟨-, -, rfl⟩ := step_panics hs
    constructor
    · intro hret hothers
      exact WorkerPool.statsExit_iff.mp (hret (.inr hothers))
    · rintro hok (htimed | hothers)
      · exact h (by rw [joined, htimed]; rfl)
      · exact WorkerPool.statsExit_iff.mpr (hok hothers)
  | timeout =>
    obtain rfl := step_timeout hs
    constructor
    · intro hret
      exact WorkerPool.statsExit_iff.mp (hret rfl)
    · intro hok _
      exact WorkerPool.statsExit_iff.mpr hok

theorem returns_start (maxAgents : ℕ) (g : TaskGraph) (hints : HashMap TaskId SandboxName)
    (sandboxes : List SandboxName) :
    (start maxAgents g hints sandboxes).Returns ↔ 0 < maxAgents := by
  have hworkers : (start maxAgents g hints sandboxes).pool.workers =
      List.replicate (min maxAgents 1000) (.polling sandboxes false) := rfl
  constructor
  · intro h
    by_contra hpos
    obtain rfl : maxAgents = 0 := by omega
    obtain ⟨hpos, hle⟩ := WorkerPool.statsExit_iff.mp (h rfl)
    exact absurd (hpos.trans_le hle) (lt_irrefl 0)
  · intro hpos hjoined
    rw [joined, Bool.or_eq_true] at hjoined
    have hended := allEnded_iff.mp (hjoined.resolve_left Bool.false_ne_true) 0
      (by rw [hworkers, List.length_replicate]; omega)
    rcases ended_iff.mp hended with hw | hm
    · rw [hworkers] at hw
      cases List.eq_of_mem_replicate (List.mem_of_getElem? hw)
    · exact absurd hm (Finset.notMem_empty 0)

end FullRun

open FullRun

/-- **The run can return at every moment exactly where** there is a worker, the last worker to
leave its loop does so in a run with a task, and where the last worker panics or the timeout
fires every task has been counted. -/
theorem returns_iff (maxAgents : ℕ) (g : TaskGraph) (hints : HashMap TaskId SandboxName)
    (sandboxes : List SandboxName) {past : List (FullRun × RunAction)} {r : FullRun}
    (h : Execution FullRun.step (.start maxAgents g hints sandboxes) past r) :
    ((∀ e ∈ past, e.1.Returns) ∧ r.Returns) ↔ 0 < maxAgents ∧ ∀ e ∈ past, e.1.StepOk e.2 := by
  have hinit := returns_start maxAgents g hints sandboxes
  by_cases hpos : 0 < maxAgents
  · rw [h.good_iff (I := fun _ => True) trivial (fun _ _ _ _ _ => trivial) (hinit.mpr hpos)
      fun _ _ _ _ hgood hs => returns_step hgood hs]
    exact (and_iff_right hpos).symm
  · refine iff_of_false (fun hall => hpos (hinit.mp ?_)) fun hok => hpos hok.1
    exact h.init_of hall.1 hall.2

def oneTaskRun : List RunAction :=
  [.work 0 .poll, .work 0 (.health 0), .work 0 (.layer 0 (.ok ⟨"agent-1", "default", "c1"⟩)),
    .work 0 (.outcome 0 (.ok ⟨true, some "+parser", none⟩)), .work 0 .poll, .work 0 .poll]

theorem returns_oneTask : ∃ past r,
    Execution FullRun.step (.start 1 oneTask ∅ ["default"]) past r ∧ r.joined = true ∧
      (∀ e ∈ past, e.1.Returns) ∧ r.Returns := by
  have hrun : Execution.runActions FullRun.step oneTaskRun []
      (.start 1 oneTask ∅ ["default"]) = some (_, _) := rfl
  refine ⟨_, _, .ofRun .start hrun, rfl, (returns_iff 1 oneTask ∅ ["default"]
    (.ofRun .start hrun)).mpr ⟨Nat.one_pos, ?_⟩⟩
  -- the plan has a task, so any worker may leave
  have hwork : ∀ (r : FullRun) (i : ℕ) (label : Label), r.pool.scheduler.totalTasks = 1 →
      r.StepOk (.work i label) := by
    intro r i label htotal _ _
    rw [htotal]
    exact Nat.one_pos
  refine List.forall_mem_cons.mpr ⟨hwork _ _ _ rfl, ?_⟩
  refine List.forall_mem_cons.mpr ⟨hwork _ _ _ rfl, ?_⟩
  refine List.forall_mem_cons.mpr ⟨hwork _ _ _ rfl, ?_⟩
  refine List.forall_mem_cons.mpr ⟨hwork _ _ _ rfl, ?_⟩
  refine List.forall_mem_cons.mpr ⟨hwork _ _ _ rfl, ?_⟩
  exact List.forall_mem_cons.mpr ⟨hwork _ _ _ rfl, List.forall_mem_nil _⟩

theorem FullRun.step_totalTasks {r r' : FullRun} {a : RunAction} (hs : r.step a = some r') :
    r'.pool.scheduler.totalTasks = r.pool.scheduler.totalTasks := by
  cases a with
  | work i label =>
    obtain ⟨-, p, hp, rfl⟩ := step_work hs
    exact (WorkerPool.step_grows hp).totalTasks
  | panics i =>
    obtain ⟨-, -, rfl⟩ := step_panics hs
    rfl
  | timeout =>
    obtain rfl := step_timeout hs
    rfl

/-- **An empty plan waits for ever**: its only worker has left, and the statistics loop does not
end whatever happens next. -/
theorem empty_plan_waits : ∃ past r,
    Execution FullRun.step (.start 1 ⟨[]⟩ ∅ ["default"]) past r ∧ r.joined = true ∧
      ∀ later r', Execution FullRun.step r later r' → r'.pool.statsExit = false := by
  have hrun : Execution.runActions FullRun.step [.work 0 .poll, .work 0 .poll] []
      (.start 1 ⟨[]⟩ ∅ ["default"]) = some (_, _) := rfl
  refine ⟨_, _, .ofRun .start hrun, rfl, fun later r' h => ?_⟩
  have htotal : r'.pool.scheduler.totalTasks = 0 :=
    h.invariant (I := fun c => c.pool.scheduler.totalTasks = 0) rfl
      fun c a c' hc hs => (FullRun.step_totalTasks hs).trans hc
  rw [← Bool.not_eq_true, WorkerPool.statsExit_iff, htotal]
  exact fun hpos => lt_irrefl 0 hpos.1

end Mowis.Pool
