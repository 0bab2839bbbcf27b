import Mowis.Scheduling.Run

/-!
# Failure closure of the scheduler

As long as nothing is retried, the skipped tasks are the ones a failure stands in
the way of: those that are neither completed nor failed and depend, directly or
through other tasks, on a failed one.
-/

namespace Mowis.Scheduling

open Mowis.Lib Scheduler

/-- No `retry_task` in the trace. -/
def NoRetry (τ : Trace) : Prop := ∀ e ∈ τ, ∀ t, e.op ≠ .retryTask t

def Caused (g : TaskGraph) (s : Scheduler) : Prop :=
  ∀ t ∈ s.skipped, ∃ d, g.DependsOn t d ∧ (d ∈ s.failed ∨ d ∈ s.skipped)

namespace Caused

variable {g : TaskGraph} {hints : HashMap TaskId SandboxName} {s s' : Scheduler}

theorem mono (h : Caused g s) (hskipped : s'.skipped = s.skipped)
    (hfailed : ∀ d, d ∈ s.failed → d ∈ s'.failed) : Caused g s' := by
  intro t ht
  rw [hskipped] at ht ⊢
  obtain ⟨d, hd, hbad⟩ := h t ht
  exact ⟨d, hd, hbad.imp_left (hfailed d)⟩

theorem skipDependents (hs : Static g hints s) (h : Caused g s) (f : TaskId) :
    Caused g (s.skipDependents f) := by
  have hspec := skipLoop_spec s (s.dependentsOf f)
  have hfrom := mem_skipped_skipLoop s (s.dependentsOf f)
  have hdef : s.skipDependents f = s.skipLoop (s.dependentsOf f) := rfl
  rw [← hdef] at hspec hfrom
  set s₂ := s.skipDependents f
  have hfailed : s₂.failed = s.failed := by rw [hspec.frame]
  intro t ht
  rw [hfailed]
  have hold : t ∈ s.skipped → ∃ d, g.DependsOn t d ∧ (d ∈ s.failed ∨ d ∈ s₂.skipped) := by
    intro hm
    obtain ⟨d, hd, hbad⟩ := h t hm
    exact ⟨d, hd, hbad.imp_right fun hd' => hspec.grow hd'⟩
  rcases hspec.cause t ht with hm | hcause
  · exact hold hm
  · -- a newly skipped id is listed under one of its dependencies, so it is a task
    have hlisted : t ∈ s.skipped ∨ ∃ d, t ∈ s.dependentsOf d := by
      rcases hfrom t ht with hm | hm | hm
      · exact .inl hm
      · exact .inr ⟨f, hm⟩
      · exact .inr hm
    rcases hlisted with hm | ⟨d₀, hd₀⟩
    · exact hold hm
    · rw [dependentsOf, hs.dependents] at hd₀
      obtain ⟨task, htask, hid, -⟩ := mem_bucket_buildDependents.mp hd₀
      obtain ⟨task', hl⟩ := exists_lookup_buildTaskMap (List.mem_map.mpr ⟨task, htask, hid⟩)
      obtain ⟨hmem, hid'⟩ := mem_of_lookup_buildTaskMap hl
      obtain ⟨d, hd, hbad⟩ := hcause task' (by rw [hs.taskGraph, hl])
      exact ⟨d, ⟨task', hmem, hid', hd⟩, hbad⟩

theorem fail (h : Caused g s) (hs : Static g hints s) (t : TaskId) (error : String) :
    Caused g (({ s with failed := s.failed.insert t error } : Scheduler).skipDependents t) := by
  have hstatic : Static g hints { s with failed := s.failed.insert t error } :=
    ⟨hs.1, hs.2, hs.3, hs.4⟩
  refine skipDependents hstatic (h.mono rfl fun d hd => ?_) t
  exact (AList.mem_insert _).mpr (.inr hd)

theorem unlockDependents (h : Caused g s) (t : TaskId) : Caused g (s.unlockDependents t) := by
  obtain ⟨dc, rq, hframe⟩ := s.unlockDependents_frame t
  rw [hframe]
  exact h.mono rfl fun _ hd => hd

theorem step (hs : Static g hints s) (h : Caused g s) (op : Op) (hop : ∀ t, op ≠ .retryTask t) :
    Caused g (s.step op).1 := by
  cases op with
  | getReadyTask sb =>
    show Caused g (s.getReadyTask sb).1
    cases hpop : s.getReadyTask sb with
    | mk s' r =>
      cases r with
      | none =>
        obtain ⟨rfl, -⟩ := s.getReadyTask_none hpop
        exact h
      | some t =>
        obtain ⟨rest, -, rfl⟩ := s.getReadyTask_some hpop
        exact h.mono rfl fun _ hd => hd
  | markTaskStarted t agent => exact h.mono rfl fun _ hd => hd
  | handleTaskCompletion result =>
    show Caused g (s.handleTaskCompletion result)
    rw [handleTaskCompletion]
    set s₁ : Scheduler := { s with
      running := s.running.erase result.taskId, results := s.results.insert result.taskId result }
    have hstatic : Static g hints s₁ := ⟨hs.1, hs.2, hs.3, hs.4⟩
    have h₁ : Caused g s₁ := h.mono rfl fun _ hd => hd
    have h₂ : Caused g { s₁ with completed := insert result.taskId s₁.completed } :=
      h₁.mono rfl fun _ hd => hd
    split
    · exact h₂.unlockDependents result.taskId
    · exact h₁.fail hstatic result.taskId _
  | handleTaskFailure t error =>
    have hstatic : Static g hints { s with running := s.running.erase t } :=
      ⟨hs.1, hs.2, hs.3, hs.4⟩
    have h₁ : Caused g { s with running := s.running.erase t } := h.mono rfl fun _ hd => hd
    exact h₁.fail hstatic t error
  | retryTask t => exact absurd rfl (hop t)

end Caused

theorem Run.caused {g : TaskGraph} (hu : g.UniqueIds) {hints : HashMap TaskId SandboxName}
    {τ : Trace} {s : Scheduler} (h : Run (new g hints) τ s) (hno : NoRetry τ) : Caused g s := by
  induction h with
  | start =>
    intro t ht
    simp [new] at ht
  | next op hrun _ ih =>
    have hrest := ih fun e he => hno e (List.mem_cons_of_mem _ he)
    exact hrest.step (hrun.inv hu).static op (hno _ List.mem_cons_self)

theorem Caused.failed_below {g : TaskGraph} (hcl : g.Closed) (hac : g.Acyclic) {s : Scheduler}
    (h : Caused g s) {t : TaskId} (ht : t ∈ s.skipped) :
    ∃ f, f ∈ s.failed ∧ Relation.TransGen g.DependsOn t f := by
  have hids : ∀ a ∈ g.ids, a ∈ s.skipped →
      ∃ f, f ∈ s.failed ∧ Relation.TransGen g.DependsOn a f := by
    refine AcyclicRel.induction hac ?_ fun a _ ih hskip => ?_
    · intro a _ b hab
      obtain ⟨task, htask, -, hdep⟩ := hab
      exact hcl task htask b hdep
    · obtain ⟨d, hd, hbad⟩ := h a hskip
      rcases hbad with hbad | hbad
      · exact ⟨d, hbad, .single hd⟩
      · obtain ⟨f, hf, hpath⟩ := ih d hd hbad
        exact ⟨f, hf, .head hd hpath⟩
  obtain ⟨d, ⟨task, htask, hid, -⟩, -⟩ := h t ht
  exact hids t (List.mem_map.mpr ⟨task, htask, hid⟩) ht

namespace Inv

variable {g : TaskGraph} {hints : HashMap TaskId SandboxName} {H O : TaskId → Prop}
  {s : Scheduler}

theorem deps_completed (hu : g.UniqueIds) (h : Inv g hints H O s) {t d : TaskId}
    (ht : t ∈ s.completed) (hd : g.DependsOn t d) : d ∈ s.completed := by
  obtain ⟨-, task, htask, hid, hz⟩ := h.handed t ((h.status t).mpr (.inr (.inl ht)))
  obtain ⟨task', htask', hid', hdep⟩ := hd
  obtain rfl := eq_of_id_eq hu htask' htask (hid'.trans hid.symm)
  exact unsatisfied_eq_zero.mp hz d hdep

theorem completed_not_skipped (h : Inv g hints H O s) {t : TaskId} (ht : t ∈ s.completed) :
    t ∉ s.skipped := (h.handed t ((h.status t).mpr (.inr (.inl ht)))).1

theorem failed_not_skipped (h : Inv g hints H O s) {t : TaskId} (ht : t ∈ s.failed) :
    t ∉ s.skipped := (h.handed t ((h.status t).mpr (.inr (.inr ht)))).1

theorem blocked_of_dependsOn (hu : g.UniqueIds) (h : Inv g hints H O s) {t d : TaskId}
    (hd : g.DependsOn t d) (hbad : s.Blocked d) : s.Blocked t := by
  by_contra hno
  obtain ⟨hnf, hns⟩ := not_or.mp hno
  have hnc : t ∉ s.completed := by
    intro hc
    have hdc := h.deps_completed hu hc hd
    rcases hbad with hbad | hbad
    · exact h.disjoint d hdc hbad
    · exact h.completed_not_skipped hdc hbad
  have hres : ¬ s.Resolved t := fun hr => hr.elim hnc fun hr => hr.elim hns hnf
  obtain ⟨task, htask, rfl, hdep⟩ := hd
  have hfree := h.noDoomed task.id task (h.lookup_task hu htask) hres d hdep
  exact hbad.elim hfree.1 hfree.2

theorem doomed (hu : g.UniqueIds) (h : Inv g hints H O s) {t f : TaskId}
    (hpath : Relation.TransGen g.DependsOn t f) (hf : f ∈ s.failed) : s.Blocked t := by
  induction hpath using Relation.TransGen.head_induction_on with
  | single hd => exact h.blocked_of_dependsOn hu hd (.inl hf)
  | head hd _ ih => exact h.blocked_of_dependsOn hu hd ih

theorem not_resolved_of_queued (h : Inv g hints H O s) {sb : SandboxName} {t : TaskId}
    (ht : t ∈ s.queue sb) : t ∉ s.skipped ∧ t ∉ s.completed ∧ t ∉ s.failed := by
  have hready : ReadyTo g H s t := by
    by_contra hno
    exact List.count_eq_zero.mp (h.unqueued sb t fun hh => hno hh.2) ht
  refine ⟨hready.2.1, fun hc => ?_, fun hf => ?_⟩
  · exact hready.1 ((h.status t).mpr (.inr (.inl hc)))
  · exact hready.1 ((h.status t).mpr (.inr (.inr hf)))

end Inv

/-- **Without retries, exactly the tasks that depend on a failed one and are not
themselves completed or failed are skipped; and nothing resolved is queued.** -/
theorem skipped_iff_depends_on_failed {g : TaskGraph} (hu : g.UniqueIds) (hcl : g.Closed)
    (hac : g.Acyclic) (hints : HashMap TaskId SandboxName) {τ : Trace} {s : Scheduler}
    (h : Run (new g hints) τ s) (hno : NoRetry τ) :
    (∀ t, t ∈ s.skipped ↔
      t ∉ s.completed ∧ t ∉ s.failed ∧
        ∃ f, f ∈ s.failed ∧ Relation.TransGen g.DependsOn t f) ∧
    ∀ sb, ∀ t ∈ s.queue sb, t ∉ s.skipped ∧ t ∉ s.completed ∧ t ∉ s.failed := by
  have hinv := h.inv hu
  refine ⟨fun t => ⟨fun ht => ?_, fun ht => ?_⟩, fun sb t ht => hinv.not_resolved_of_queued ht⟩
  · have hnc : t ∉ s.completed := fun hc => hinv.completed_not_skipped hc ht
    have hnf : t ∉ s.failed := fun hf => hinv.failed_not_skipped hf ht
    exact ⟨hnc, hnf, (h.caused hu hno).failed_below hcl hac ht⟩
  · obtain ⟨-, hnf, f, hf, hpath⟩ := ht
    exact (hinv.doomed hu hpath hf).resolve_left hnf

/-- `c` depends on `b`, and `b` on `a`. -/
def longChain : TaskGraph :=
  ⟨[⟨"a", "schema", [], none⟩, ⟨"b", "queries", ["a"], none⟩, ⟨"c", "report", ["b"], none⟩]⟩

/-- `a` was handed out and failed. -/
def longChainFailed : Scheduler :=
  ((new longChain ∅).getReadyTask "default").1.handleTaskFailure "a" "no such table"

theorem longChain_acyclic : longChain.Acyclic := by
  refine AcyclicRel.of_lt id fun t d hd => ?_
  obtain ⟨task, htask, rfl, hdep⟩ := hd
  have hlt : ∀ task ∈ longChain.tasks, ∀ d ∈ task.deps, d < task.id := by decide
  exact hlt task htask d hdep

theorem skipped_iff_depends_on_failed_longChain :
    "c" ∈ longChainFailed.skipped ∧
      ∃ f, f ∈ longChainFailed.failed ∧ Relation.TransGen longChain.DependsOn "c" f := by
  have hrun : Run (new longChain ∅)
      [⟨.handleTaskFailure "a" "no such table", .unit⟩,
        ⟨.getReadyTask "default", .ready (some "a")⟩] longChainFailed :=
    .next (.handleTaskFailure "a" "no such table")
      (.next (.getReadyTask "default") .start nofun)
      (fun t ht => .inl (congrArg Ret.ready ht))
  have hskip : "c" ∈ longChainFailed.skipped := by decide +kernel
  have hiff := (skipped_iff_depends_on_failed (by decide) (by decide) longChain_acyclic ∅ hrun
    (by simp [NoRetry])).1 "c"
  exact ⟨hskip, (hiff.mp hskip).2.2⟩

end Mowis.Scheduling
