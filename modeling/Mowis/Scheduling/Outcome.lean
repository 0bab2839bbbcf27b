import Mowis.Scheduling.Accounting

/-!
# The outcome of a run

Without retries, what becomes of every task is decided by which tasks fail: the order in which
tasks are handed out and reported, and the sandboxes they are queued in, do not matter.
-/

namespace Mowis.Scheduling

open Mowis.Lib Scheduler

/-- What the operation reports is what becomes of the task when it is run. -/
def Op.Agrees (fails : TaskId → Bool) : Op → Prop
  | .handleTaskCompletion result => result.success = !fails result.taskId
  | .handleTaskFailure t _ => fails t = true
  | _ => True

section Outcome

variable (g : TaskGraph) (fails : TaskId → Bool) (t : TaskId)

/-- Neither the task nor any task below it fails. -/
def Completes : Prop := t ∈ g.ids ∧ ∀ u, Relation.ReflTransGen g.DependsOn t u → fails u = false

/-- The task fails, and no task below it does. -/
def Fails : Prop :=
  t ∈ g.ids ∧ fails t = true ∧ ∀ u, Relation.TransGen g.DependsOn t u → fails u = false

/-- A task below it fails. -/
def Skips : Prop := t ∈ g.ids ∧ ∃ u, Relation.TransGen g.DependsOn t u ∧ fails u = true

end Outcome

variable {g : TaskGraph} {fails : TaskId → Bool} {hints : HashMap TaskId SandboxName} {t : TaskId}
  {s : Scheduler} {τ : Trace}

theorem Completes.not_fails (h : Completes g fails t) : ¬ Fails g fails t := fun hf =>
  Bool.noConfusion ((h.2 t .refl).symm.trans hf.2.1)

theorem Skips.not_completes (h : Skips g fails t) : ¬ Completes g fails t := by
  obtain ⟨-, u, hu, hfails⟩ := h
  exact fun hc => Bool.noConfusion ((hc.2 u hu.to_reflTransGen).symm.trans hfails)

theorem Skips.not_fails (h : Skips g fails t) : ¬ Fails g fails t := by
  obtain ⟨-, u, hu, hfails⟩ := h
  exact fun hf => Bool.noConfusion ((hf.2.2 u hu).symm.trans hfails)

theorem reported_step (s : Scheduler) {op : Op} (hop : op.Agrees fails)
    (hno : ∀ t, op ≠ .retryTask t)
    (hc : ∀ t ∈ s.completed, fails t = false) (hf : ∀ t ∈ s.failed, fails t = true) :
    (∀ t ∈ (s.step op).1.completed, fails t = false) ∧
      ∀ t ∈ (s.step op).1.failed, fails t = true := by
  have hskip : ∀ (s' : Scheduler) (t : TaskId),
      (s'.skipDependents t).completed = s'.completed ∧ (s'.skipDependents t).failed = s'.failed := by
    intro s' t
    have hframe := (skipLoop_spec s' (s'.dependentsOf t)).frame
    exact ⟨by rw [skipDependents, hframe], by rw [skipDependents, hframe]⟩
  have hfail : ∀ (m : HashMap TaskId String) (t : TaskId) (e : String), fails t = true →
      (∀ u ∈ m, fails u = true) → ∀ u ∈ m.insert t e, fails u = true := by
    intro m t e ht hm u hu
    rcases (AList.mem_insert m).mp hu with rfl | hu
    · exact ht
    · exact hm u hu
  cases op with
  | getReadyTask sb =>
    show (∀ t ∈ (s.getReadyTask sb).1.completed, _) ∧ ∀ t ∈ (s.getReadyTask sb).1.failed, _
    rw [getReadyTask]
    split <;> exact ⟨hc, hf⟩
  | markTaskStarted t agent => exact ⟨hc, hf⟩
  | handleTaskCompletion result =>
    have hop : result.success = !fails result.taskId := hop
    show (∀ t ∈ (s.handleTaskCompletion result).completed, _) ∧
      ∀ t ∈ (s.handleTaskCompletion result).failed, _
    rw [handleTaskCompletion]
    split
    · next hsuccess =>
      rw [completed_unlockDependents, failed_unlockDependents]
      refine ⟨fun u hu => ?_, hf⟩
      rcases Finset.mem_insert.mp hu with rfl | hu
      · rw [hsuccess] at hop
        exact Bool.not_eq_true' _ ▸ hop.symm
      · exact hc u hu
    · next hfailure =>
      rw [(hskip _ _).1, (hskip _ _).2]
      refine ⟨hc, hfail _ _ _ ?_ hf⟩
      rw [Bool.not_eq_true] at hfailure
      rw [hfailure] at hop
      exact Bool.not_eq_false' _ ▸ hop.symm
  | handleTaskFailure t error =>
    show (∀ u ∈ (s.handleTaskFailure t error).completed, _) ∧
      ∀ u ∈ (s.handleTaskFailure t error).failed, _
    rw [handleTaskFailure, (hskip _ _).1, (hskip _ _).2]
    exact ⟨hc, hfail _ _ _ hop hf⟩
  | retryTask t => exact absurd rfl (hno t)

theorem Run.reported (h : Run (new g hints) τ s) (hno : NoRetry τ)
    (hagree : ∀ e ∈ τ, e.op.Agrees fails) :
    (∀ t ∈ s.completed, fails t = false) ∧ ∀ t ∈ s.failed, fails t = true := by
  induction h with
  | start => exact ⟨fun t ht => absurd ht (Finset.notMem_empty t), fun t ht => absurd ht (by simp [new])⟩
  | @next τ s op hrun _ ih =>
    obtain ⟨hc, hf⟩ := ih (fun e he => hno e (List.mem_cons_of_mem _ he))
      fun e he => hagree e (List.mem_cons_of_mem _ he)
    exact reported_step s (hagree _ List.mem_cons_self) (hno _ List.mem_cons_self) hc hf

theorem Inv.completed_below {H O : TaskId → Prop} (hu : g.UniqueIds) (h : Inv g hints H O s)
    (ht : t ∈ s.completed ∨ t ∈ s.failed) {u : TaskId} (hpath : Relation.TransGen g.DependsOn t u) :
    u ∈ s.completed := by
  induction hpath with
  | single hd =>
    obtain ⟨-, task, htask, hid, hz⟩ := h.handed t ((h.status t).mpr (.inr ht))
    obtain ⟨task', htask', hid', hdep⟩ := hd
    obtain rfl := Inv.eq_of_id_eq hu htask' htask (hid'.trans hid.symm)
    exact unsatisfied_eq_zero.mp hz _ hdep
  | tail _ hd ih => exact h.deps_completed hu ih hd

/-- **The outcome does not depend on the order.**  At every moment of a run without retries the
completed, failed and skipped tasks are ones that complete, fail or are skipped by what lies below
them in the graph; and once nothing is out and nothing is queued, they are all of them. -/
theorem outcome_determined (hu : g.UniqueIds) (hcl : g.Closed) (hac : g.Acyclic)
    (h : Run (new g hints) τ s) (hno : NoRetry τ) (hagree : ∀ e ∈ τ, e.op.Agrees fails) :
    (∀ t, (t ∈ s.completed → Completes g fails t) ∧ (t ∈ s.failed → Fails g fails t) ∧
      (t ∈ s.skipped → Skips g fails t)) ∧
    ((∀ t, ¬ Outstanding τ t) → (∀ sb, s.queue sb = []) →
      ∀ t, (t ∈ s.completed ↔ Completes g fails t) ∧ (t ∈ s.failed ↔ Fails g fails t) ∧
        (t ∈ s.skipped ↔ Skips g fails t)) := by
  have hinv := h.inv hu
  obtain ⟨hc, hf⟩ := h.reported hno hagree
  have hids : ∀ t, t ∈ s.completed ∨ t ∈ s.failed → t ∈ g.ids := by
    intro t ht
    obtain ⟨-, task, htask, rfl, -⟩ := hinv.handed t ((hinv.status t).mpr (.inr ht))
    exact List.mem_map_of_mem htask
  have hbelow : ∀ t, t ∈ s.completed ∨ t ∈ s.failed →
      ∀ u, Relation.TransGen g.DependsOn t u → fails u = false :=
    fun t ht u hpath => hc u (hinv.completed_below hu ht hpath)
  have hcompletes : ∀ t ∈ s.completed, Completes g fails t := by
    intro t ht
    refine ⟨hids t (.inl ht), fun u hpath => ?_⟩
    rcases Relation.reflTransGen_iff_eq_or_transGen.mp hpath with rfl | hpath
    · exact hc u ht
    · exact hbelow t (.inl ht) u hpath
  have hfails : ∀ t ∈ s.failed, Fails g fails t := fun t ht =>
    ⟨hids t (.inr ht), hf t ht, hbelow t (.inr ht)⟩
  have hskips : ∀ t ∈ s.skipped, Skips g fails t := by
    intro t ht
    obtain ⟨f, hfailed, hpath⟩ := (h.caused hu hno).failed_below hcl hac ht
    exact ⟨h.skipped_ids hu ht, f, hpath, hf f hfailed⟩
  refine ⟨fun t => ⟨hcompletes t, hfails t, hskips t⟩, fun hidle hempty t => ?_⟩
  have hresolved : t ∈ g.ids → s.Resolved t := by
    intro ht
    by_contra hres
    obtain ⟨m, -, hq⟩ := hinv.exists_queued hu hcl hac hidle ht hres
    exact hq (hempty _)
  refine ⟨⟨hcompletes t, fun ht => ?_⟩, ⟨hfails t, fun ht => ?_⟩, ⟨hskips t, fun ht => ?_⟩⟩
  · rcases hresolved ht.1 with hmem | hmem | hmem
    · exact hmem
    · exact absurd ht (hskips t hmem).not_completes
    · exact absurd (hfails t hmem) ht.not_fails
  · rcases hresolved ht.1 with hmem | hmem | hmem
    · exact absurd ht (hcompletes t hmem).not_fails
    · exact absurd ht (hskips t hmem).not_fails
    · exact hmem
  · rcases hresolved ht.1 with hmem | hmem | hmem
    · exact absurd (hcompletes t hmem) ht.not_completes
    · exact hmem
    · exact absurd (hfails t hmem) ht.not_fails

theorem outcome_determined_longChain :
    "c" ∈ longChainFailed.skipped ∧ Skips longChain (fun t => t == "a") "c" := by
  have hrun : Run (new longChain ∅)
      [⟨.handleTaskFailure "a" "no such table", .unit⟩,
        ⟨.getReadyTask "default", .ready (some "a")⟩] longChainFailed :=
    .next (.handleTaskFailure "a" "no such table")
      (.next (.getReadyTask "default") .start nofun)
      (fun t ht => .inl (congrArg Ret.ready ht))
  have hskip : "c" ∈ longChainFailed.skipped := by decide +kernel
  refine ⟨hskip, ((outcome_determined (by decide) (by decide) longChain_acyclic hrun
    (by simp [NoRetry]) (by simp [Op.Agrees])).1 "c").2.2 hskip⟩

end Mowis.Scheduling
