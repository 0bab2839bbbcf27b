import Mowis.Scheduling.Run
import Mowis.Pool.Worker

/-!
# Conservation of tasks in the worker pools

A worker that drops the task it popped (`WorkerPool.Drops`) loses it: nothing
else refers to the task any more.  The results of this module are about runs
without such steps.
-/

namespace Mowis.Pool

open Mowis.Lib Mowis.Scheduling Mowis.Scheduling.Scheduler

namespace WorkerPool

/-- The task worker `i` has popped and not dealt with yet. -/
def held (p : WorkerPool) (i : ℕ) : Option TaskId := p.workers[i]?.bind Worker.task?

def Holds (p : WorkerPool) (t : TaskId) : Prop := ∃ i, p.held i = some t

end WorkerPool

/-- What one step does to the scheduler and to the place of its worker. -/
inductive Move (s : Scheduler) (w : Worker) : Scheduler → Worker → Prop
  | pop {sandbox : SandboxName} {s' : Scheduler} {t : TaskId} {w' : Worker} :
      w.task? = none → s.getReadyTask sandbox = (s', some t) → w'.task? = some t → Move s w s' w'
  | quiet (running : HashMap TaskId AgentHandle) {w' : Worker} :
      w'.task? = w.task? → Move s w { s with running := running } w'
  | report {result : AgentResult} {w' : Worker} :
      w.task? = some result.taskId → w'.task? = none →
      Move s w (s.handleTaskCompletion result) w'

namespace WorkerPool

theorem keeps_move {p p' : WorkerPool} {i : ℕ} {label : Label} (hk : p.Keeps i label)
    (hs : p.step i label = some p') :
    ∃ w w', p.workers[i]? = some w ∧ p'.workers = p.workers.set i w' ∧
      p'.sandboxes = p.sandboxes ∧ (w' = .exited → p.exitTest = true) ∧
      Move p.scheduler w p'.scheduler w' := by
  unfold step at hs
  split at hs
  · rename_i sandbox rest found hw
    split at hs
    · rename_i s t hpop
      obtain rfl := Option.some.inj hs
      exact ⟨_, _, hw, rfl, rfl, nofun, .pop rfl hpop rfl⟩
    · obtain rfl := Option.some.inj hs
      exact ⟨_, _, hw, rfl, rfl, nofun, .quiet _ rfl⟩
  · rename_i hw
    obtain rfl := Option.some.inj hs
    exact ⟨_, _, hw, rfl, rfl, nofun, .quiet _ rfl⟩
  · rename_i hw
    split at hs
    · rename_i hexit
      obtain rfl := Option.some.inj hs
      exact ⟨_, _, hw, rfl, rfl, fun _ => hexit, .quiet _ rfl⟩
    · obtain rfl := Option.some.inj hs
      exact ⟨_, _, hw, rfl, rfl, nofun, .quiet _ rfl⟩
  · rename_i t sandbox rest now hw
    split at hs
    · obtain rfl := Option.some.inj hs
      exact ⟨_, _, hw, rfl, rfl, nofun, .quiet _ rfl⟩
    · -- the circuit is open: this step drops the task
      rename_i hopen
      have hdrop : p.Drops i (.health now) := by
        unfold Drops
        rw [hw]
        simp [hopen]
      exact absurd hdrop hk
  · rename_i t sandbox rest now layer hw
    obtain rfl := Option.some.inj hs
    exact ⟨_, _, hw, rfl, rfl, nofun, .quiet _ rfl⟩
  · -- no container: this step drops the task
    rename_i now e hw
    have hdrop : p.Drops i (.layer now (.error e)) := by
      unfold Drops
      rw [hw]
      trivial
    exact absurd hdrop hk
  · rename_i t sandbox rest agent assigned now r hw
    obtain rfl := Option.some.inj hs
    have hid : some t = some (agent.taskId.getD "") := by
      rw [assigned]
      rfl
    exact ⟨_, _, hw, rfl, rfl, nofun, .report hid rfl⟩
  · rename_i t sandbox rest agent assigned now e hw
    obtain rfl := Option.some.inj hs
    have hm : Move p.scheduler (.executing t sandbox rest agent assigned)
        (p.scheduler.handleTaskCompletion
          ⟨t, false, none, some (taskFailedText i (p.description t) e)⟩) (.polling rest true) :=
      .report rfl rfl
    exact ⟨_, _, hw, rfl, rfl, nofun, hm⟩
  · cases hs

theorem held_set {p p' : WorkerPool} {i : ℕ} {w w' : Worker} (hw : p.workers[i]? = some w)
    (hset : p'.workers = p.workers.set i w') (j : ℕ) :
    p'.held j = if j = i then w'.task? else p.held j := by
  obtain ⟨hi, -⟩ := List.getElem?_eq_some_iff.mp hw
  rw [held, hset, List.getElem?_set]
  by_cases hji : i = j
  · subst hji
    simp [hi]
  · simp [hji, Ne.symm hji, held]

theorem held_self {p : WorkerPool} {i : ℕ} {w : Worker} (hw : p.workers[i]? = some w) :
    p.held i = w.task? := by
  rw [held, hw]
  rfl

end WorkerPool

/-- Tasks are resolved for good. -/
structure Grows (s s' : Scheduler) : Prop where
  completed : s.completed ⊆ s'.completed
  failed : ∀ t ∈ s.failed, t ∈ s'.failed
  skipped : s.skipped ⊆ s'.skipped
  totalTasks : s'.totalTasks = s.totalTasks

theorem Grows.resolved {s s' : Scheduler} (h : Grows s s') {t : TaskId} (ht : s.Resolved t) :
    s'.Resolved t := by
  rcases ht with ht | ht | ht
  · exact .inl (h.completed ht)
  · exact .inr (.inl (h.skipped ht))
  · exact .inr (.inr (h.failed t ht))

theorem grows_handleTaskCompletion (s : Scheduler) (result : AgentResult) :
    Grows s (s.handleTaskCompletion result) ∧
      (result.taskId ∈ (s.handleTaskCompletion result).completed ∨
        result.taskId ∈ (s.handleTaskCompletion result).failed) := by
  rw [handleTaskCompletion]
  split
  · obtain ⟨dc, rq, hframe⟩ := unlock_frame _ ({ s with
      running := s.running.erase result.taskId
      results := s.results.insert result.taskId result
      completed := insert result.taskId s.completed } : Scheduler)
    rw [unlockDependents, hframe]
    exact ⟨⟨Finset.subset_insert _ _, fun _ ht => ht, Finset.Subset.refl _, rfl⟩,
      .inl (Finset.mem_insert_self _ _)⟩
  · have hspec := skipLoop_spec ({ s with
      running := s.running.erase result.taskId
      results := s.results.insert result.taskId result
      failed := s.failed.insert result.taskId (result.error.getD "Unknown error") } : Scheduler)
      (s.dependentsOf result.taskId)
    have hgrow := hspec.grow
    show Grows s (Scheduler.skipLoop _ (s.dependentsOf result.taskId)) ∧
      (_ ∈ (Scheduler.skipLoop _ (s.dependentsOf result.taskId)).completed ∨
        _ ∈ (Scheduler.skipLoop _ (s.dependentsOf result.taskId)).failed)
    rw [hspec.frame]
    exact ⟨⟨Finset.Subset.refl _, fun t ht => AList.mem_insert _ |>.mpr (.inr ht), hgrow, rfl⟩,
      .inr (AList.mem_insert _ |>.mpr (.inl rfl))⟩

theorem Move.grows {s s' : Scheduler} {w w' : Worker} (h : Move s w s' w') : Grows s s' := by
  cases h with
  | pop _ hpop _ =>
    obtain ⟨rest, -, rfl⟩ := s.getReadyTask_some hpop
    exact ⟨Finset.Subset.refl _, fun _ ht => ht, Finset.Subset.refl _, rfl⟩
  | quiet running _ => exact ⟨Finset.Subset.refl _, fun _ ht => ht, Finset.Subset.refl _, rfl⟩
  | report _ _ => exact (grows_handleTaskCompletion s _).1

theorem Move.keeps {s s' : Scheduler} {w w' : Worker} (h : Move s w s' w') {t : TaskId}
    (ht : w.task? = some t) : w'.task? = some t ∨ t ∈ s'.completed ∨ t ∈ s'.failed := by
  cases h with
  | pop hw _ _ =>
    rw [hw] at ht
    cases ht
  | quiet running hw => exact .inl (hw.trans ht)
  | report hw _ =>
    obtain rfl := Option.some.inj (hw.symm.trans ht)
    exact .inr (grows_handleTaskCompletion s _).2

theorem Grows.exitTest {p p' : WorkerPool} (h : Grows p.scheduler p'.scheduler)
    (he : p.exitTest = true) : p'.exitTest = true := by
  have he := of_decide_eq_true he
  refine decide_eq_true ?_
  simp only [getStats] at he ⊢
  have hc := Finset.card_le_card h.completed
  have hs := Finset.card_le_card h.skipped
  have hf : p.scheduler.failed.keys.length ≤ p'.scheduler.failed.keys.length :=
    (List.subperm_of_subset p.scheduler.failed.keys_nodup h.failed).length_le
  rw [h.totalTasks]
  omega

/-! ### Any plan: no task is lost -/

/-- Where a task is, for any plan: the counters may be off, but never too large for
an unresolved task that is neither queued nor held. -/
structure Placed (g : TaskGraph) (hints : HashMap TaskId SandboxName) (held : TaskId → Prop)
    (s : Scheduler) : Prop where
  static : Static g hints s
  noDoomed : s.NoDoomed
  place : ∀ t task, s.taskGraph.lookup t = some task →
    s.Resolved t ∨ t ∈ s.queue (s.sandboxOf t) ∨ held t ∨
      ∃ c, s.depCounter.lookup t = some c ∧ 0 < c ∧ c ≤ s.unsatisfied task

namespace Placed

variable {g : TaskGraph} {hints : HashMap TaskId SandboxName} {H H' : TaskId → Prop}
  {s : Scheduler}

theorem mono (h : Placed g hints H s) (hH : ∀ t, H t → H' t ∨ s.Resolved t) :
    Placed g hints H' s := by
  refine ⟨h.static, h.noDoomed, fun t task hl => ?_⟩
  rcases h.place t task hl with hr | hq | hh | hc
  · exact .inl hr
  · exact .inr (.inl hq)
  · rcases hH t hh with hh | hr
    · exact .inr (.inr (.inl hh))
    · exact .inl hr
  · exact .inr (.inr (.inr hc))

theorem bookkeeping (h : Placed g hints H s) (running : HashMap TaskId AgentHandle)
    (results : HashMap TaskId AgentResult) :
    Placed g hints H { s with running := running, results := results } :=
  ⟨⟨h.static.1, h.static.2, h.static.3, h.static.4⟩, h.noDoomed, h.place⟩

theorem init (g : TaskGraph) (hints : HashMap TaskId SandboxName) :
    Placed g hints (fun _ => False) (new g hints) := by
  refine ⟨⟨rfl, rfl, rfl, rfl⟩, fun t task _ _ d _ => by simp [new], fun t task hl => ?_⟩
  obtain ⟨hmem, hid⟩ := mem_of_lookup_buildTaskMap hl
  by_cases hd : task.deps = []
  · exact .inr (.inl (mem_bucket_buildReadyQueues.mpr ⟨rfl, task, hmem, hid, hd⟩))
  · refine .inr (.inr (.inr ⟨task.deps.length, ?_, List.length_pos_iff.mpr hd, ?_⟩))
    · show (buildDepCounter g).lookup t = _
      rw [lookup_buildDepCounter, show (buildTaskMap g).lookup t = some task from hl]
      rfl
    · simp [unsatisfied, new]

theorem pop (h : Placed g hints H s) {sb : SandboxName} {s' : Scheduler} {t : TaskId}
    (hpop : s.getReadyTask sb = (s', some t)) : Placed g hints (fun u => u = t ∨ H u) s' := by
  obtain ⟨rest, hq, rfl⟩ := s.getReadyTask_some hpop
  refine ⟨⟨h.static.1, h.static.2, h.static.3, h.static.4⟩, h.noDoomed, fun u task hl => ?_⟩
  rcases h.place u task hl with hr | hmem | hh | hc
  · exact .inl hr
  · by_cases hut : u = t
    · exact .inr (.inr (.inl (.inl hut)))
    · refine .inr (.inl ?_)
      rw [queue_insert_readyQueues]
      show u ∈ if s.sandboxOf u = sb then rest else s.queue (s.sandboxOf u)
      split
      · rename_i hsb
        rw [hsb, hq] at hmem
        exact (List.mem_cons.mp hmem).resolve_left hut
      · exact hmem
  · exact .inr (.inr (.inl (.inr hh)))
  · exact .inr (.inr (.inr hc))

theorem complete (h : Placed g hints H s) (t : TaskId) :
    Placed g hints H
      (({ s with completed := insert t s.completed } : Scheduler).unlockDependents t) := by
  set s₁ : Scheduler := { s with completed := insert t s.completed } with hs₁
  have hunsat : ∀ task : Task, s.unsatisfied task ≤ s₁.unsatisfied task + task.deps.count t := by
    intro task
    by_cases hc : t ∈ s.completed
    · have hsame : s₁.unsatisfied task = s.unsatisfied task := by
        simp only [unsatisfied, hs₁, Finset.insert_eq_of_mem hc]
      omega
    · exact (unsatisfied_insert s task t hc).ge
  have hstatic₁ : Static g hints s₁ := ⟨h.static.1, h.static.2, h.static.3, h.static.4⟩
  have hresolved : ∀ u, s.Resolved u → (s₁.unlockDependents t).Resolved u := by
    intro u hr
    rw [Resolved, completed_unlockDependents, skipped_unlockDependents, failed_unlockDependents]
    exact hr.imp_left Finset.mem_insert_of_mem
  refine ⟨hstatic₁.unlockDependents t, fun u task hl hres d hd => ?_, fun u task hl => ?_⟩
  · rw [taskGraph_unlockDependents] at hl
    rw [failed_unlockDependents, skipped_unlockDependents]
    exact h.noDoomed u task hl (fun hr => hres (hresolved u hr)) d hd
  · rw [taskGraph_unlockDependents] at hl
    rw [sandboxOf_unlockDependents, unsatisfied_unlockDependents]
    by_cases hb : s.Blocked u
    · exact .inl (hresolved u (hb.elim (fun hf => .inr (.inr hf)) (fun hs => .inr (.inl hs))))
    · rcases h.place u task hl with hr | hq | hh | ⟨c, hc, hpos, hle⟩
      · exact .inl (hresolved u hr)
      · refine .inr (.inl (List.count_pos_iff.mp ?_))
        have hq' : 0 < (s.queue (s.sandboxOf u)).count u := List.count_pos_iff.mpr hq
        cases hc : s₁.depCounter.lookup u with
        | none =>
          rw [(s₁.unlockDependents_inert t (.inr hc)).2]
          exact hq'
        | some c =>
          rw [(s₁.unlockDependents_view t hb hc).2]
          exact Nat.lt_of_lt_of_le hq' (Nat.le_add_right _ _)
      · exact .inr (.inr (.inl hh))
      · -- the counter drops by the listings of `t`, at least one per dependency on it
        have hn : task.deps.count t ≤ (s₁.dependentsOf t).count u := by
          rw [dependentsOf, hstatic₁.dependents]
          exact count_deps_le_dependents (by rw [← h.static.taskGraph]; exact hl) t
        obtain ⟨hlook, hcount⟩ := s₁.unlockDependents_view t hb hc
        by_cases hcn : c ≤ (s₁.dependentsOf t).count u
        · refine .inr (.inl (List.count_pos_iff.mp ?_))
          have hcross := crossings_pos c _ hpos hcn
          rw [hcount, if_pos rfl]
          omega
        · refine .inr (.inr (.inr ⟨_, hlook, ?_, ?_⟩))
          · rw [iterate_fetchSub _ _ (by omega)]
            omega
          · rw [iterate_fetchSub _ _ (by omega)]
            have := hunsat task
            omega

theorem fail (h : Placed g hints H s) (t : TaskId) (error : String) :
    Placed g hints H
      (({ s with failed := s.failed.insert t error } : Scheduler).skipDependents t) := by
  set s₁ : Scheduler := { s with failed := s.failed.insert t error } with hs₁
  have hfailed₁ : ∀ u, u ∈ s₁.failed ↔ u = t ∨ u ∈ s.failed := fun u => AList.mem_insert _
  have hstatic₁ : Static g hints s₁ := ⟨h.static.1, h.static.2, h.static.3, h.static.4⟩
  have hresolved₁ : ∀ u, s.Resolved u → s₁.Resolved u := fun u hr =>
    hr.imp id fun hr => hr.imp id fun hf => (hfailed₁ u).mpr (.inr hf)
  have hcov : s₁.Covers (s₁.dependentsOf t) := by
    intro u task hl hres d hd hbad
    obtain ⟨hnf, hns⟩ := h.noDoomed u task hl (fun hr => hres (hresolved₁ u hr)) d hd
    rcases hbad with hbad | hbad
    · rcases (hfailed₁ d).mp hbad with rfl | hbad
      · exact Inv.dependentsComplete hstatic₁ u task hl d hd
      · exact absurd hbad hnf
    · exact absurd hbad hns
  have hspec := skipLoop_spec s₁ (s₁.dependentsOf t)
  refine ⟨?_, skipLoop_noDoomed s₁ _ (Inv.dependentsComplete hstatic₁) hcov, fun u task hl => ?_⟩
  · rw [skipDependents, hspec.frame]
    exact ⟨h.static.1, h.static.2, h.static.3, h.static.4⟩
  · rw [skipDependents] at hl ⊢
    set s₂ := s₁.skipLoop (s₁.dependentsOf t) with hs₂
    have hsand : s₂.sandboxOf u = s.sandboxOf u := by rw [hspec.frame]; rfl
    rw [hspec.frame] at hl
    rw [hsand]
    by_cases hsk : u ∈ s₂.skipped
    · exact .inl (.inr (.inl hsk))
    · rcases h.place u task hl with hr | hq | hh | ⟨c, hc, hpos, hle⟩
      · exact .inl ((hspec.resolved_iff u).mpr (.inl (hresolved₁ u hr)))
      · refine .inr (.inl ?_)
        rw [hspec.queue]
        exact List.mem_filter.mpr ⟨hq, decide_eq_true fun hm => absurd hm hsk⟩
      · exact .inr (.inr (.inl hh))
      · refine .inr (.inr (.inr ⟨c, ?_, hpos, ?_⟩))
        · rw [hspec.frame]
          exact hc
        · rw [hspec.frame]
          exact hle

theorem move (h : Placed g hints H s) {w w' : Worker} {s' : Scheduler} (hm : Move s w s' w')
    (hkeep : ∀ t, H t → w.task? = some t ∨ H' t) (hnew : ∀ t, w'.task? = some t → H' t) :
    Placed g hints H' s' := by
  cases hm with
  | pop hw hpop hw' =>
    refine (h.pop hpop).mono fun u hu => .inl ?_
    rcases hu with rfl | hu
    · exact hnew _ hw'
    · exact (hkeep u hu).resolve_left fun ht => by rw [hw] at ht; cases ht
  | quiet running hw =>
    refine (h.bookkeeping running s.results).mono fun u hu => .inl ?_
    exact (hkeep u hu).elim (fun ht => hnew u (hw.trans ht)) id
  | @report result _ hw _ =>
    have hb := h.bookkeeping (s.running.erase result.taskId) (s.results.insert result.taskId result)
    have hdone := (grows_handleTaskCompletion s result).2
    have hnext : Placed g hints H (s.handleTaskCompletion result) := by
      rw [handleTaskCompletion]
      split
      · exact hb.complete _
      · exact hb.fail _ _
    refine hnext.mono fun u hu => ?_
    rcases hkeep u hu with ht | hh
    · obtain rfl := Option.some.inj (hw.symm.trans ht)
      exact .inr (hdone.imp id .inr)
    · exact .inl hh

end Placed

namespace WorkerPool

variable {p p' : WorkerPool} {mode : PoolMode} {maxAgents : ℕ} {g : TaskGraph}
  {hints : HashMap TaskId SandboxName} {sandboxes : List SandboxName}

theorem held_start (i : ℕ) : (WorkerPool.start mode maxAgents g hints sandboxes).held i = none := by
  have hw : (WorkerPool.start mode maxAgents g hints sandboxes).workers =
      List.replicate (mode.workerCount maxAgents) (.polling sandboxes false) := rfl
  rw [held, hw, List.getElem?_replicate]
  split <;> rfl

theorem Reaches.placed (h : Reaches Keeps (WorkerPool.start mode maxAgents g hints sandboxes) p) :
    Placed g hints p.Holds p.scheduler := by
  induction h with
  | start =>
    exact (Placed.init g hints).mono fun _ hf => hf.elim
  | next i label _ hk hs ih =>
    obtain ⟨w, w', hw, hset, -, -, hm⟩ := keeps_move hk hs
    refine ih.move hm (fun t ht => ?_) fun t ht => ⟨i, ?_⟩
    · obtain ⟨j, hj⟩ := ht
      by_cases hji : j = i
      · subst hji
        exact .inl (by rw [← held_self hw, hj])
      · exact .inr ⟨j, by rw [held_set hw hset, if_neg hji, hj]⟩
    · rw [held_set hw hset, if_pos rfl, ht]

def Waits (s : Scheduler) (t : TaskId) : Prop :=
  ∃ task, s.taskGraph.lookup t = some task ∧ ∃ d ∈ task.deps, ¬ s.Resolved d

def Conserved (g : TaskGraph) (p : WorkerPool) : Prop :=
  ∀ t ∈ g.ids, (∃ sb, t ∈ p.scheduler.queue sb) ∨ p.Holds t ∨ p.scheduler.Resolved t ∨
    Waits p.scheduler t

end WorkerPool

theorem Placed.waits {g : TaskGraph} {hints : HashMap TaskId SandboxName} {H : TaskId → Prop}
    {s : Scheduler} (h : Placed g hints H s) {t : TaskId} {task : Task}
    (hl : s.taskGraph.lookup t = some task) (hres : ¬ s.Resolved t) (hpos : 0 < s.unsatisfied task) :
    WorkerPool.Waits s t := by
  have hsome : ¬ ∀ d ∈ task.deps, d ∈ s.completed := fun hall =>
    hpos.ne' (unsatisfied_eq_zero.mpr hall)
  push Not at hsome
  obtain ⟨d, hd, hc⟩ := hsome
  obtain ⟨hf, hs⟩ := h.noDoomed t task hl hres d hd
  exact ⟨task, hl, d, hd, fun hr => hr.elim hc fun hr => hr.elim hs hf⟩

theorem Placed.conserved {g : TaskGraph} {hints : HashMap TaskId SandboxName} {p : WorkerPool}
    (h : Placed g hints p.Holds p.scheduler) : p.Conserved g := by
  intro t ht
  obtain ⟨task, hl⟩ := exists_lookup_buildTaskMap ht
  rw [← h.static.taskGraph] at hl
  by_cases hres : p.scheduler.Resolved t
  · exact .inr (.inr (.inl hres))
  · rcases h.place t task hl with hr | hq | hh | ⟨c, -, hpos, hle⟩
    · exact absurd hr hres
    · exact .inl ⟨_, hq⟩
    · exact .inr (.inl hh)
    · exact .inr (.inr (.inr (h.waits hl hres (by omega))))

end Mowis.Pool
