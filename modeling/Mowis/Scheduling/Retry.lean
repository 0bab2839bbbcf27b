import Mowis.Lib.Execution
import Mowis.Scheduling.Closure

/-!
# Retries

What a failure does to the tasks above it is never undone: `retry_task` brings the failed task
back, and `unlock_dependents` passes over the skipped ones.
-/

namespace Mowis.Scheduling

open Mowis.Lib Scheduler

instance instDecidableOutstanding : ∀ (τ : Trace) (t : TaskId), Decidable (Outstanding τ t)
  | [], _ => isFalse id
  | e :: τ, t =>
    haveI := instDecidableOutstanding τ t
    inferInstanceAs (Decidable (e.Hands t ∨ (Outstanding τ t ∧ ¬ e.Reports t)))

/-- A scheduler with the operations that led to it. -/
structure Scheduled where
  trace : Trace
  scheduler : Scheduler

namespace Scheduled

/-- The outcome of a task is reported only while the task is out. -/
def allows (c : Scheduled) (op : Op) : Bool :=
  match op.reported with
  | none => true
  | some t => decide (Outstanding c.trace t)

def step (c : Scheduled) (op : Op) : Option Scheduled :=
  if c.allows op then
    some ⟨⟨op, (c.scheduler.step op).2⟩ :: c.trace, (c.scheduler.step op).1⟩
  else none

def start (g : TaskGraph) (hints : HashMap TaskId SandboxName) : Scheduled := ⟨[], new g hints⟩

theorem reported_of_allows {c : Scheduled} {op : Op} (h : c.allows op = true) :
    ∀ t, op.reported = some t → Outstanding c.trace t := by
  intro t ht
  rw [allows, ht] at h
  exact of_decide_eq_true h

theorem step_some {c c' : Scheduled} {op : Op} (h : c.step op = some c') :
    (∀ t, op.reported = some t → Outstanding c.trace t) ∧
      c' = ⟨⟨op, (c.scheduler.step op).2⟩ :: c.trace, (c.scheduler.step op).1⟩ := by
  rw [step] at h
  split at h
  · next hallows => exact ⟨reported_of_allows hallows, (Option.some.inj h).symm⟩
  · cases h

end Scheduled

variable {g : TaskGraph} {hints : HashMap TaskId SandboxName} {c c' : Scheduled}
  {past : List (Scheduled × Op)}

theorem Run.scheduled_step (h : Run (new g hints) c.trace c.scheduler) {op : Op}
    (hs : c.step op = some c') : Run (new g hints) c'.trace c'.scheduler := by
  obtain ⟨hop, rfl⟩ := Scheduled.step_some hs
  exact .next op h hop

def Idle (c : Scheduled) : Prop :=
  (∀ t, ¬ Outstanding c.trace t) ∧ ∀ sb, c.scheduler.queue sb = []

/-- What a retry that succeeds must bring about: a task whose dependencies are completed is not
skipped and, unless it was handed out, ready; and where nothing is left to do and no task has
failed for good, all are completed. -/
structure Recovers (g : TaskGraph) (c : Scheduled) : Prop where
  ready : ∀ task ∈ g.tasks, (∀ d ∈ task.deps, d ∈ c.scheduler.completed) →
    task.id ∉ c.scheduler.skipped ∧
      (¬ Handed c.trace task.id → task.id ∈ c.scheduler.queue (c.scheduler.sandboxOf task.id))
  done : Idle c → (∀ t, t ∉ c.scheduler.failed) → ∀ t ∈ g.ids, t ∈ c.scheduler.completed

/-- The operation reports the success of a task that is the last open dependency of a skipped
one. -/
def Strands (g : TaskGraph) (s : Scheduler) (op : Op) : Prop :=
  ∃ result, op = .handleTaskCompletion result ∧ result.success = true ∧
    ∃ task ∈ g.tasks, task.id ∈ s.skipped ∧ result.taskId ∈ task.deps ∧
      ∀ d ∈ task.deps, d ≠ result.taskId → d ∈ s.completed

def Held (g : TaskGraph) (s : Scheduler) : Prop :=
  ∀ task ∈ g.tasks, task.id ∈ s.skipped → ∃ d ∈ task.deps, d ∉ s.completed

theorem completed_success (s : Scheduler) {result : AgentResult} (h : result.success = true) :
    (s.handleTaskCompletion result).completed = insert result.taskId s.completed ∧
      (s.handleTaskCompletion result).skipped = s.skipped := by
  rw [handleTaskCompletion]
  dsimp only
  rw [if_pos h]
  exact ⟨completed_unlockDependents _ _, skipped_unlockDependents _ _⟩

theorem Held.skipDependents {H O : TaskId → Prop} {s s₁ : Scheduler} (hu : g.UniqueIds)
    (h : Held g s) (hcompleted : s₁.completed = s.completed) (hskipped : s₁.skipped = s.skipped)
    (t : TaskId) (hinv : Inv g hints H O (s₁.skipDependents t)) : Held g (s₁.skipDependents t) := by
  have hspec := skipLoop_spec s₁ (s₁.dependentsOf t)
  have hdef : s₁.skipDependents t = s₁.skipLoop (s₁.dependentsOf t) := rfl
  rw [← hdef] at hspec
  have hsame : (s₁.skipDependents t).completed = s.completed := by
    rw [hspec.frame]
    exact hcompleted
  have hfailed : (s₁.skipDependents t).failed = s₁.failed := by rw [hspec.frame]
  have htasks : (s₁.skipDependents t).taskGraph = s₁.taskGraph := by rw [hspec.frame]
  intro task htask hmem
  rcases hspec.cause _ hmem with hold | hcause
  · rw [hsame]
    exact h task htask (hskipped ▸ hold)
  · have hlookup := hinv.lookup_task hu htask
    rw [htasks] at hlookup
    obtain ⟨d, hd, hbad⟩ := hcause task hlookup
    refine ⟨d, hd, fun hdone => ?_⟩
    rcases hbad with hbad | hbad
    · exact hinv.disjoint d hdone (hfailed ▸ hbad)
    · exact hinv.completed_not_skipped hdone hbad

theorem Held.step (hu : g.UniqueIds) (hrun : Run (new g hints) c.trace c.scheduler)
    (h : Held g c.scheduler) {op : Op} (hok : ¬ Strands g c.scheduler op)
    (hs : c.step op = some c') : Held g c'.scheduler := by
  have hinv := (hrun.scheduled_step hs).inv hu
  obtain ⟨hop, rfl⟩ := Scheduled.step_some hs
  cases op with
  | getReadyTask sb =>
    show Held g (c.scheduler.getReadyTask sb).1
    cases hpop : c.scheduler.getReadyTask sb with
    | mk s' r =>
      cases r with
      | none =>
        obtain ⟨rfl, -⟩ := c.scheduler.getReadyTask_none hpop
        exact h
      | some t =>
        obtain ⟨rest, -, rfl⟩ := c.scheduler.getReadyTask_some hpop
        exact h
  | markTaskStarted t agent => exact h
  | handleTaskCompletion result =>
    by_cases hsuccess : result.success = true
    · obtain ⟨hcompleted, hskipped⟩ := completed_success c.scheduler hsuccess
      intro task htask hmem
      have hmem' : task.id ∈ c.scheduler.skipped := hskipped ▸ hmem
      by_contra hnone
      push Not at hnone
      have hall : ∀ d ∈ task.deps, d ≠ result.taskId → d ∈ c.scheduler.completed := by
        intro d hd hne
        have hdone : d ∈ (c.scheduler.handleTaskCompletion result).completed := hnone d hd
        rw [hcompleted] at hdone
        exact (Finset.mem_insert.mp hdone).resolve_left hne
      obtain ⟨d, hd, hopen⟩ := h task htask hmem'
      have hlast : result.taskId ∈ task.deps := by
        by_contra hno
        exact hopen (hall d hd fun he => hno (he ▸ hd))
      exact hok ⟨result, rfl, hsuccess, task, htask, hmem', hlast, hall⟩
    · have hdef : c.scheduler.handleTaskCompletion result =
          ({ c.scheduler with
            running := c.scheduler.running.erase result.taskId
            results := c.scheduler.results.insert result.taskId result
            failed := c.scheduler.failed.insert result.taskId
              (result.error.getD "Unknown error") } : Scheduler).skipDependents result.taskId := by
        rw [handleTaskCompletion]
        dsimp only
        rw [if_neg hsuccess]
      have hinv' : Inv g hints (Handed _) (Outstanding _) (c.scheduler.handleTaskCompletion result) :=
        hinv
      show Held g (c.scheduler.handleTaskCompletion result)
      rw [hdef] at hinv' ⊢
      refine Held.skipDependents hu h ?_ ?_ _ hinv'
      · rfl
      · rfl
  | handleTaskFailure t error =>
    have hinv' : Inv g hints (Handed _) (Outstanding _) (c.scheduler.handleTaskFailure t error) :=
      hinv
    show Held g (c.scheduler.handleTaskFailure t error)
    rw [handleTaskFailure] at hinv' ⊢
    refine Held.skipDependents hu h ?_ ?_ t hinv'
    · rfl
    · rfl
  | retryTask t =>
    show Held g (c.scheduler.retryTask t).1
    have hframe : (c.scheduler.retryTask t).1.completed = c.scheduler.completed ∧
        (c.scheduler.retryTask t).1.skipped = c.scheduler.skipped := by
      rw [retryTask]
      split
      · dsimp only
        split
        · split <;> exact ⟨rfl, rfl⟩
        · exact ⟨rfl, rfl⟩
      · exact ⟨rfl, rfl⟩
    intro task htask hmem
    rw [hframe.1]
    exact h task htask (hframe.2 ▸ hmem)

theorem Strands.held_broken {op : Op} (h : Strands g c.scheduler op) (hs : c.step op = some c') :
    ∃ task ∈ g.tasks, task.id ∈ c'.scheduler.skipped ∧
      ∀ d ∈ task.deps, d ∈ c'.scheduler.completed := by
  obtain ⟨-, rfl⟩ := Scheduled.step_some hs
  obtain ⟨result, rfl, hsuccess, task, htask, hmem, -, hall⟩ := h
  obtain ⟨hcompleted, hskipped⟩ := completed_success c.scheduler hsuccess
  refine ⟨task, htask, ?_, fun d hd => ?_⟩
  · show task.id ∈ (c.scheduler.handleTaskCompletion result).skipped
    rw [hskipped]
    exact hmem
  · show d ∈ (c.scheduler.handleTaskCompletion result).completed
    rw [hcompleted, Finset.mem_insert]
    by_cases he : d = result.taskId
    · exact .inl he
    · exact .inr (hall d hd he)

theorem Held.recovers (hu : g.UniqueIds) (hcl : g.Closed) (hac : g.Acyclic)
    (hrun : Run (new g hints) c.trace c.scheduler) (h : Held g c.scheduler) : Recovers g c := by
  have hinv := hrun.inv hu
  have hready : ∀ task ∈ g.tasks, (∀ d ∈ task.deps, d ∈ c.scheduler.completed) →
      task.id ∉ c.scheduler.skipped ∧
        (¬ Handed c.trace task.id → task.id ∈ c.scheduler.queue (c.scheduler.sandboxOf task.id)) := by
    intro task htask hdeps
    have hfree : task.id ∉ c.scheduler.skipped := by
      intro hmem
      obtain ⟨d, hd, hopen⟩ := h task htask hmem
      exact hopen (hdeps d hd)
    refine ⟨hfree, fun hH => ?_⟩
    have hcount := hinv.queued task.id
      ⟨hH, hfree, task, htask, rfl, unsatisfied_eq_zero.mpr hdeps⟩
    exact List.count_pos_iff.mp (by omega)
  refine ⟨hready, fun hidle hfailed => ?_⟩
  refine AcyclicRel.induction hac ?_ fun t ht ih => ?_
  · intro a _ b hab
    obtain ⟨task, htask, -, hdep⟩ := hab
    exact hcl task htask b hdep
  · obtain ⟨task, htask, rfl⟩ := List.mem_map.mp ht
    obtain ⟨-, hqueued⟩ := hready task htask fun d hd => ih d ⟨task, htask, rfl, hd⟩
    by_cases hH : Handed c.trace task.id
    · rcases (hinv.status task.id).mp hH with hout | hdone | hfail
      · exact absurd hout (hidle.1 _)
      · exact hdone
      · exact absurd hfail (hfailed _)
    · have hmem := hqueued hH
      rw [hidle.2] at hmem
      cases hmem

/-- **Retries.** Throughout a run every task whose dependencies are completed is ready or was
handed out, and no run without failures left ends before all tasks are completed, exactly when
no task completes that is the last open dependency of a skipped one. -/
theorem recovers_iff (hu : g.UniqueIds) (hcl : g.Closed) (hac : g.Acyclic)
    (h : Execution Scheduled.step (Scheduled.start g hints) past c) :
    ((∀ e ∈ past, Recovers g e.1) ∧ Recovers g c) ↔ ∀ e ∈ past, ¬ Strands g e.1.scheduler e.2 := by
  refine @Execution.sound_iff _ _ _ _ _ _
    (fun c => Run (new g hints) c.trace c.scheduler ∧ Held g c.scheduler) (Recovers g)
    (fun c op => ¬ Strands g c.scheduler op) h ?_ ?_ ?_ ?_
  · refine ⟨.start, fun task _ hmem => ?_⟩
    simp [Scheduled.start, new] at hmem
  · rintro c op c' ⟨hrun, hheld⟩ hok hs
    exact ⟨hrun.scheduled_step hs, hheld.step hu hrun hok hs⟩
  · rintro c ⟨hrun, hheld⟩
    exact hheld.recovers hu hcl hac hrun
  · rintro c op c' - hbad hs hrec
    obtain ⟨task, htask, hmem, hdeps⟩ := (not_not.mp hbad).held_broken hs
    exact (hrec.ready task htask hdeps).1 hmem

theorem chainPlan_acyclic : chainPlan.Acyclic := by
  refine AcyclicRel.of_lt id fun t d hd => ?_
  obtain ⟨task, htask, rfl, hdep⟩ := hd
  have hlt : ∀ task ∈ chainPlan.tasks, ∀ d ∈ task.deps, d < task.id := by decide
  exact hlt task htask d hdep

/-- `a` succeeds at once, and `b` is ready. -/
theorem recovers_iff_chain :
    ∃ past c, Execution Scheduled.step (.start chainPlan ∅) past c ∧
      "a" ∈ c.scheduler.completed ∧ (∀ e ∈ past, Recovers chainPlan e.1) ∧ Recovers chainPlan c := by
  have hrun : Execution.runActions Scheduled.step
      [.getReadyTask "default", .handleTaskCompletion ⟨"a", true, none, none⟩] []
      (.start chainPlan ∅) = some (_, _) := rfl
  have h := Execution.ofRun .start hrun
  refine ⟨_, _, h, by decide, (recovers_iff (by decide) (by decide) chainPlan_acyclic h).mpr ?_⟩
  refine List.forall_mem_cons.mpr ⟨?_, List.forall_mem_cons.mpr ⟨?_, List.forall_mem_nil _⟩⟩
  · rintro ⟨result, -, -, task, -, hmem, -⟩
    exact absurd hmem (Finset.notMem_empty _)
  · rintro ⟨result, -, -, task, -, hmem, -⟩
    exact absurd hmem (Finset.notMem_empty _)

/-- `a` fails, is retried and succeeds. -/
def retriedOps : List Op :=
  [.getReadyTask "default", .handleTaskFailure "a" "no such table", .retryTask "a",
    .getReadyTask "default", .handleTaskCompletion ⟨"a", true, none, none⟩]

/-- No task is left failed, and `b` stays skipped above its completed dependency. -/
theorem retried_task_strands :
    ∃ past c, Execution Scheduled.step (.start chainPlan ∅) past c ∧
      "a" ∈ c.scheduler.completed ∧ c.scheduler.failed.keys = [] ∧ "b" ∈ c.scheduler.skipped ∧
      ¬ Recovers chainPlan c := by
  have hend : ∃ r, Execution.runActions Scheduled.step retriedOps [] (.start chainPlan ∅) = some r ∧
      "a" ∈ r.2.scheduler.completed ∧ r.2.scheduler.failed.keys = [] ∧
      "b" ∈ r.2.scheduler.skipped := by
    have hall : (Execution.runActions Scheduled.step retriedOps [] (.start chainPlan ∅)).any
        (fun r => decide ("a" ∈ r.2.scheduler.completed ∧ r.2.scheduler.failed.keys = [] ∧
          "b" ∈ r.2.scheduler.skipped)) = true := by decide +kernel
    obtain ⟨r, hr, hfacts⟩ := (Option.any_eq_true _ _).mp hall
    exact ⟨r, hr, of_decide_eq_true hfacts⟩
  obtain ⟨⟨past, c⟩, hrun, hdone, hfailed, hskipped⟩ := hend
  refine ⟨past, c, Execution.ofRun .start hrun, hdone, hfailed, hskipped, fun hrec => ?_⟩
  have hfree := (hrec.ready ⟨"b", "queries", ["a"], none⟩ (by decide) ?_).1
  · exact hfree hskipped
  · intro d hd
    rw [List.mem_singleton.mp hd]
    exact hdone

end Mowis.Scheduling
