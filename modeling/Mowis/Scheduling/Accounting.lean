import Mowis.Scheduling.Closure

/-!
# The scheduler's accounts

What `get_stats` and `is_complete` say in the states of a run, retries included.
-/

namespace Mowis.Scheduling

open Mowis.Lib Scheduler

theorem unlock_lookup_of_count_zero (ts : List TaskId) (s : Scheduler) (u : TaskId)
    (h : ts.count u = 0) :
    (ts.foldl unlockOne s).depCounter.lookup u = s.depCounter.lookup u := by
  by_cases hb : s.Blocked u ∨ s.depCounter.lookup u = none
  · exact (unlock_inert ts s u hb).1
  · obtain ⟨hb, hsome⟩ := not_or.mp hb
    obtain ⟨c, hc⟩ := Option.ne_none_iff_exists'.mp hsome
    have hview := (unlock_view ts s u c hb hc).1
    rw [h] at hview
    exact hview.trans hc.symm

section Counters

variable {g : TaskGraph} {hints : HashMap TaskId SandboxName} {H O : TaskId → Prop}
  {s : Scheduler}

theorem Inv.lookup_complete (hu : g.UniqueIds) (h : Inv g hints H O s) {t u : TaskId} (hO : O t)
    (hH : H u) :
    (({ s with completed := insert t s.completed } : Scheduler).unlockDependents t).depCounter.lookup
      u = s.depCounter.lookup u := by
  obtain ⟨-, task, htask, rfl, hz⟩ := h.handed u hH
  have hnc := (h.outstanding t hO).1
  have hnot : t ∉ task.deps := fun hd => hnc (unsatisfied_eq_zero.mp hz t hd)
  have hcount : (s.dependentsOf t).count task.id = 0 := by
    rw [count_dependentsOf hu h.static htask, List.count_eq_zero]
    exact hnot
  exact unlock_lookup_of_count_zero _ _ _ hcount

theorem Inv.lookup_step (hu : g.UniqueIds) {τ : Trace}
    (h : Inv g hints (Handed τ) (Outstanding τ) s) (op : Op)
    (hop : ∀ t, op.reported = some t → Outstanding τ t) {u : TaskId} (hH : Handed τ u)
    (hret : op ≠ .retryTask u) :
    (s.step op).1.depCounter.lookup u = s.depCounter.lookup u := by
  cases op with
  | getReadyTask sb =>
    show (s.getReadyTask sb).1.depCounter.lookup u = _
    cases hpop : s.getReadyTask sb with
    | mk s' r =>
      cases r with
      | none =>
        obtain ⟨rfl, -⟩ := s.getReadyTask_none hpop
        rfl
      | some t =>
        obtain ⟨rest, -, rfl⟩ := s.getReadyTask_some hpop
        rfl
  | markTaskStarted t agent => rfl
  | handleTaskCompletion result =>
    have hb := h.bookkeeping (s.running.erase result.taskId) (s.results.insert result.taskId result)
    show (s.handleTaskCompletion result).depCounter.lookup u = _
    rw [handleTaskCompletion]
    split
    · exact hb.lookup_complete hu (hop _ rfl) hH
    · rw [skipDependents, (skipLoop_spec _ _).frame]
  | handleTaskFailure t error =>
    show (s.handleTaskFailure t error).depCounter.lookup u = _
    rw [handleTaskFailure, skipDependents, (skipLoop_spec _ _).frame]
  | retryTask t =>
    have hne : u ≠ t := fun he => hret (he ▸ rfl)
    show (s.retryTask t).1.depCounter.lookup u = _
    rw [retryTask]
    split
    · dsimp only
      split
      · split <;> exact AList.lookup_insert_ne hne
      · rfl
    · rfl

end Counters

theorem counter_of_handed {g : TaskGraph} (hu : g.UniqueIds) {hints : HashMap TaskId SandboxName}
    {τ : Trace} {s : Scheduler} (h : Run (new g hints) τ s) {t : TaskId} (ht : Handed τ t) :
    s.depCounter.lookup t = some 0 := by
  induction h with
  | start => exact ht.elim
  | @next τ s op hrun hop ih =>
    have hinv := hrun.inv hu
    by_cases hH : Handed τ t
    · by_cases hret : op = .retryTask t
      · -- a retry of a task that is out and not failed changes nothing
        subst hret
        have hno : ¬ ∃ ok, (s.step (.retryTask t)).2 = .retried ok ∧ ok = true := by
          intro hok
          obtain ⟨ok, hret, rfl⟩ := hok
          exact ht.elim (fun hh => absurd (hret.symm.trans hh) nofun) fun hh => hh.2 ⟨rfl, hret⟩
        have hf : t ∉ s.failed := by
          intro hf
          exact hno ⟨true, congrArg Ret.retried (hinv.retry hu hf).1, rfl⟩
        have hsame : s.retryTask t = (s, false) := if_neg hf
        show (s.retryTask t).1.depCounter.lookup t = some 0
        rw [hsame]
        exact ih hH
      · rw [hinv.lookup_step hu op hop hH hret]
        exact ih hH
    · -- it has just been handed out
      have hhands : (s.step op).2 = .ready (some t) := ht.resolve_right fun hh => hH hh.1
      cases op with
      | getReadyTask sb =>
        have hpop : s.getReadyTask sb = ((s.getReadyTask sb).1, some t) :=
          Prod.ext rfl (Ret.ready.inj hhands)
        obtain ⟨⟨-, hskip, task, htask, rfl, hz⟩, -⟩ := hinv.pop hpop
        obtain ⟨rest, -, heq⟩ := s.getReadyTask_some hpop
        show (s.getReadyTask sb).1.depCounter.lookup task.id = some 0
        rw [heq]
        exact (hinv.counter task htask hH hskip).trans (congrArg some hz)
      | markTaskStarted t' agent => cases hhands
      | handleTaskCompletion result => cases hhands
      | handleTaskFailure t' error => cases hhands
      | retryTask t' => cases hhands

/-- `t` was marked started and not reported since. -/
def Started : Trace → TaskId → Prop
  | [], _ => False
  | e :: τ, t => (∃ agent, e.op = .markTaskStarted t agent) ∨ (Started τ t ∧ ¬ e.Reports t)

/-- Only tasks that were out were marked started: the worker loop marks the task it
has just popped. -/
def MarksHanded : Trace → Prop
  | [] => True
  | e :: τ => (∀ t agent, e.op = .markTaskStarted t agent → Outstanding τ t) ∧ MarksHanded τ

def AllMarked (τ : Trace) : Prop := ∀ t, Outstanding τ t → Started τ t

theorem MarksHanded.outstanding {init s : Scheduler} {τ : Trace} (hm : MarksHanded τ)
    (h : Run init τ s) {t : TaskId} (ht : Started τ t) : Outstanding τ t := by
  induction h with
  | start => exact ht.elim
  | next op _ hop ih =>
    rcases ht with ⟨agent, hmark⟩ | ⟨hst, hrep⟩
    · refine .inr ⟨hm.1 t agent hmark, ?_⟩
      rw [Event.Reports, hmark]
      intro hreported
      cases hreported
    · exact .inr ⟨ih hm.2 hst, hrep⟩

theorem running_step (s : Scheduler) (op : Op) (t : TaskId) :
    t ∈ (s.step op).1.running ↔
      (∃ agent, op = .markTaskStarted t agent) ∨ (t ∈ s.running ∧ op.reported ≠ some t) := by
  cases op with
  | getReadyTask sb =>
    show t ∈ (s.getReadyTask sb).1.running ↔ _
    have hrun : (s.getReadyTask sb).1.running = s.running := by
      rw [getReadyTask]
      split <;> rfl
    rw [hrun]
    simp [Op.reported]
  | markTaskStarted t' agent =>
    show t ∈ (s.markTaskStarted t' agent).running ↔ _
    rw [markTaskStarted, AList.mem_insert]
    simp [Op.reported, eq_comm]
  | handleTaskCompletion result =>
    show t ∈ (s.handleTaskCompletion result).running ↔ _
    have hrun : (s.handleTaskCompletion result).running = s.running.erase result.taskId := by
      by_cases hr : result.success = true
      · obtain ⟨dc, rq, hframe⟩ := s.handleTaskCompletion_frame hr
        rw [hframe]
      · rw [handleTaskCompletion]
        dsimp only
        rw [if_neg hr, skipDependents, (skipLoop_spec _ _).frame]
    rw [hrun, AList.mem_erase]
    simp [Op.reported, and_comm, eq_comm]
  | handleTaskFailure t' error =>
    show t ∈ (s.handleTaskFailure t' error).running ↔ _
    rw [handleTaskFailure, skipDependents, (skipLoop_spec _ _).frame]
    show t ∈ s.running.erase t' ↔ _
    rw [AList.mem_erase]
    simp [Op.reported, and_comm, eq_comm]
  | retryTask t' =>
    show t ∈ (s.retryTask t').1.running ↔ _
    have hrun : (s.retryTask t').1.running = s.running := by
      rw [retryTask]
      split
      · dsimp only
        split
        · split <;> rfl
        · rfl
      · rfl
    rw [hrun]
    simp [Op.reported]

theorem Run.running {g : TaskGraph} {hints : HashMap TaskId SandboxName} {τ : Trace}
    {s : Scheduler} (h : Run (new g hints) τ s) (t : TaskId) : t ∈ s.running ↔ Started τ t := by
  induction h with
  | start => exact ⟨fun hm => absurd hm (AList.notMem_empty t), False.elim⟩
  | next op _ _ ih => rw [running_step, ih]; rfl

section Counts

variable {g : TaskGraph} {hints : HashMap TaskId SandboxName} {H O : TaskId → Prop}
  {s : Scheduler}

def Scheduler.statusSets (s : Scheduler) : List (Finset TaskId) :=
  [s.completed, s.failed.keys.toFinset, s.skipped, s.running.keys.toFinset]

theorem Inv.statusSets_disjoint (h : Inv g hints H O s) (hrun : ∀ t, t ∈ s.running → O t) :
    s.statusSets.Pairwise Disjoint := by
  have hfailed : ∀ t, t ∈ s.failed.keys.toFinset ↔ t ∈ s.failed := fun t => List.mem_toFinset
  have hrunning : ∀ t, t ∈ s.running.keys.toFinset → O t := fun t ht =>
    hrun t (List.mem_toFinset.mp ht)
  simp only [statusSets, List.pairwise_cons, List.mem_cons, List.not_mem_nil, or_false,
    forall_eq_or_imp, forall_eq, IsEmpty.forall_iff, implies_true, List.Pairwise.nil, and_true,
    Finset.disjoint_left, hfailed]
  refine ⟨⟨h.disjoint, fun t hc => h.completed_not_skipped hc, fun t hc hr => ?_⟩,
    ⟨fun t hf => h.failed_not_skipped hf, fun t hf hr => ?_⟩, fun t hs hr => ?_⟩
  · exact (h.outstanding t (hrunning t hr)).1 hc
  · exact (h.outstanding t (hrunning t hr)).2 hf
  · exact (h.handed t ((h.status t).mpr (.inl (hrunning t hr)))).1 hs

theorem card_le_of_disjoint {sets : List (Finset TaskId)}
    (hd : sets.Pairwise Disjoint) (hsub : ∀ x ∈ sets, ∀ t ∈ x, t ∈ g.ids) :
    (sets.map Finset.card).sum ≤ g.tasks.length := by
  have hnodup : (sets.flatMap Finset.toList).Nodup := by
    refine List.nodup_flatMap.mpr ⟨fun x _ => x.nodup_toList, hd.imp fun hdis => ?_⟩
    intro t ht ht'
    exact Finset.disjoint_left.mp hdis (Finset.mem_toList.mp ht) (Finset.mem_toList.mp ht')
  have hmem : sets.flatMap Finset.toList ⊆ g.ids := by
    intro t ht
    obtain ⟨x, hx, ht⟩ := List.mem_flatMap.mp ht
    exact hsub x hx t (Finset.mem_toList.mp ht)
  calc (sets.map Finset.card).sum = (sets.flatMap Finset.toList).length := by
        simp [List.length_flatMap]
    _ ≤ g.ids.length := (hnodup.subperm hmem).length_le
    _ = g.tasks.length := by rw [TaskGraph.ids, List.length_map]

theorem skipped_step (s : Scheduler) (op : Op) {t : TaskId} (ht : t ∈ (s.step op).1.skipped) :
    t ∈ s.skipped ∨ ∃ d, t ∈ s.dependentsOf d := by
  have hloop : ∀ (s₁ : Scheduler) (f : TaskId), t ∈ (s₁.skipDependents f).skipped →
      t ∈ s₁.skipped ∨ ∃ d, t ∈ s₁.dependentsOf d := by
    intro s₁ f hm
    rcases mem_skipped_skipLoop s₁ (s₁.dependentsOf f) t hm with hm | hm | hm
    · exact .inl hm
    · exact .inr ⟨f, hm⟩
    · exact .inr hm
  cases op with
  | getReadyTask sb =>
    have hsame : (s.getReadyTask sb).1.skipped = s.skipped := by
      rw [getReadyTask]
      split <;> rfl
    exact .inl (hsame ▸ ht)
  | markTaskStarted t' agent => exact .inl ht
  | handleTaskCompletion result =>
    change t ∈ (s.handleTaskCompletion result).skipped at ht
    by_cases hr : result.success = true
    · obtain ⟨dc, rq, hframe⟩ := s.handleTaskCompletion_frame hr
      rw [hframe] at ht
      exact .inl ht
    · rw [handleTaskCompletion] at ht
      dsimp only at ht
      rw [if_neg hr] at ht
      have hm := hloop _ _ ht
      exact hm
  | handleTaskFailure t' error =>
    change t ∈ (s.handleTaskFailure t' error).skipped at ht
    rw [handleTaskFailure] at ht
    have hm := hloop _ _ ht
    exact hm
  | retryTask t' =>
    have hsame : (s.retryTask t').1.skipped = s.skipped := by
      rw [retryTask]
      split
      · dsimp only
        split
        · split <;> rfl
        · rfl
      · rfl
    exact .inl (hsame ▸ ht)

theorem Run.skipped_ids (hu : g.UniqueIds) {τ : Trace} (h : Run (new g hints) τ s) {t : TaskId}
    (ht : t ∈ s.skipped) : t ∈ g.ids := by
  induction h with
  | start => simp [new] at ht
  | @next τ s op hrun _ ih =>
    rcases skipped_step s op ht with hm | ⟨d, hd⟩
    · exact ih hm
    · rw [dependentsOf, (hrun.inv hu).static.dependents] at hd
      obtain ⟨task, htask, hid, -⟩ := mem_bucket_buildDependents.mp hd
      exact List.mem_map.mpr ⟨task, htask, hid⟩

/-- The sum of the sizes of the four sets does not exceed the number of tasks, so the
subtraction in `pending` is exact. -/
theorem Inv.stats_sum (h : Inv g hints H O s) (hrun : ∀ t, t ∈ s.running → O t)
    (hskipped : ∀ t ∈ s.skipped, t ∈ g.ids) :
    s.getStats.completed + s.getStats.failed + s.getStats.skipped + s.getStats.running +
      s.getStats.pending = s.getStats.totalTasks := by
  have hhanded : ∀ t, H t → t ∈ g.ids := by
    intro t ht
    obtain ⟨-, task, htask, hid, -⟩ := h.handed t ht
    exact List.mem_map.mpr ⟨task, htask, hid⟩
  have hle := card_le_of_disjoint (g := g) (h.statusSets_disjoint hrun) (by
    intro x hx t ht
    simp only [statusSets, List.mem_cons, List.not_mem_nil, or_false] at hx
    rcases hx with rfl | rfl | rfl | rfl
    · exact hhanded t ((h.status t).mpr (.inr (.inl ht)))
    · exact hhanded t ((h.status t).mpr (.inr (.inr (List.mem_toFinset.mp ht))))
    · exact hskipped t ht
    · exact hhanded t ((h.status t).mpr (.inl (hrun t (List.mem_toFinset.mp ht)))))
  have hf : s.failed.keys.toFinset.card = s.failed.keys.length :=
    List.toFinset_card_of_nodup s.failed.keys_nodup
  have hr : s.running.keys.toFinset.card = s.running.keys.length :=
    List.toFinset_card_of_nodup s.running.keys_nodup
  have htotal := h.static.totalTasks
  simp only [statusSets, List.map_cons, List.map_nil, List.sum_cons, List.sum_nil, hf, hr] at hle
  simp only [getStats]
  omega

end Counts

namespace Scheduler

variable (s : Scheduler)

def readyCount : ℕ := (s.readyQueues.entries.map (fun e => e.2.length)).sum

def countersClear : Bool :=
  !s.depCounter.entries.any (fun e =>
    e.2 != 0 && decide (e.1 ∉ s.completed ∧ e.1 ∉ s.failed ∧ e.1 ∉ s.skipped))

theorem readyCount_eq_zero : s.readyCount = 0 ↔ ∀ sb, s.queue sb = [] := by
  rw [readyCount, List.sum_eq_zero_iff]
  constructor
  · intro h sb
    rw [queue, HashMap.bucket]
    cases hl : s.readyQueues.lookup sb with
    | none => rfl
    | some q =>
      have hz := h q.length (List.mem_map.mpr ⟨⟨sb, q⟩, AList.mem_lookup_iff.mp hl, rfl⟩)
      exact List.length_eq_zero_iff.mp hz
  · intro h n hn
    obtain ⟨⟨sb, q⟩, he, rfl⟩ := List.mem_map.mp hn
    have hq := h sb
    rw [queue, HashMap.bucket, AList.mem_lookup_iff.mpr he] at hq
    exact List.length_eq_zero_iff.mpr hq

theorem countersClear_iff : s.countersClear = true ↔
    ∀ t c, s.depCounter.lookup t = some c → c ≠ 0 → s.Resolved t := by
  rw [countersClear, Bool.not_eq_true', List.any_eq_false]
  constructor
  · intro h t c hl hc
    have he := h ⟨t, c⟩ (AList.mem_lookup_iff.mp hl)
    by_contra hres
    simp only [Resolved, not_or] at hres
    exact he (by simp [hc, hres])
  · intro h e he hbad
    have hl : s.depCounter.lookup e.1 = some e.2 := AList.mem_lookup_iff.mpr he
    simp only [Bool.and_eq_true, bne_iff_ne, ne_eq, decide_eq_true_eq] at hbad
    rcases h e.1 e.2 hl hbad.1 with hr | hr | hr
    · exact hbad.2.1 hr
    · exact hbad.2.2.2 hr
    · exact hbad.2.2.1 hr

theorem isComplete_eq : s.isComplete = (s.readyCount == 0 && s.countersClear) := rfl

theorem isComplete_iff :
    s.isComplete = true ↔ (∀ sb, s.queue sb = []) ∧
      ∀ t c, s.depCounter.lookup t = some c → c ≠ 0 → s.Resolved t := by
  rw [isComplete_eq, Bool.and_eq_true, beq_iff_eq, readyCount_eq_zero, countersClear_iff]

end Scheduler

section Counts

variable {g : TaskGraph} {hints : HashMap TaskId SandboxName} {H O : TaskId → Prop}
  {s : Scheduler}

/-- `is_complete` is exact between two operations: with the counters known, a task that
waits either has a positive counter or is queued. -/
theorem Inv.isComplete_iff_dispatched (h : Inv g hints H O s)
    (hzero : ∀ t, H t → s.depCounter.lookup t = some 0) :
    s.isComplete = true ↔ ∀ t ∈ g.ids, s.Resolved t ∨ O t := by
  rw [isComplete_iff]
  constructor
  · intro hall t ht
    obtain ⟨hempty, hcounters⟩ := hall
    by_contra hno
    obtain ⟨hres, hO⟩ := not_or.mp hno
    obtain ⟨task, htask, rfl⟩ := List.mem_map.mp ht
    have hskip : task.id ∉ s.skipped := fun hs => hres (.inr (.inl hs))
    have hH : ¬ H task.id := by
      intro hH
      rcases (h.status _).mp hH with ho | hc | hf
      · exact hO ho
      · exact hres (.inl hc)
      · exact hres (.inr (.inr hf))
    have hcounter := h.counter task htask hH hskip
    by_cases hz : s.unsatisfied task = 0
    · have hqueued := h.queued task.id ⟨hH, hskip, task, htask, rfl, hz⟩
      rw [hempty] at hqueued
      cases hqueued
    · exact hres (hcounters _ _ hcounter hz)
  · intro hall
    refine ⟨fun sb => ?_, fun t c hl hc => ?_⟩
    · rw [List.eq_nil_iff_forall_not_mem]
      intro t ht
      have hfree := h.not_resolved_of_queued ht
      have hready : sb = s.sandboxOf t ∧ ReadyTo g H s t := by
        by_contra hno
        exact List.count_eq_zero.mp (h.unqueued sb t hno) ht
      obtain ⟨-, hH, -, task, htask, hid, -⟩ := hready
      rcases hall t (List.mem_map.mpr ⟨task, htask, hid⟩) with hr | hO
      · rcases hr with hr | hr | hr
        · exact hfree.2.1 hr
        · exact hfree.1 hr
        · exact hfree.2.2 hr
      · exact hH ((h.status t).mpr (.inl hO))
    · have hids : t ∈ g.ids := by
        by_contra hno
        have hnone := (h.counters t).mpr hno
        rw [hnone] at hl
        cases hl
      refine (hall t hids).resolve_right fun hO => hc ?_
      have hz := hzero t ((h.status t).mpr (.inl hO))
      exact Option.some.inj (hl.symm.trans hz)

theorem Inv.exists_queued (hu : g.UniqueIds) (hcl : g.Closed) (hac : g.Acyclic)
    (h : Inv g hints H O s) (hidle : ∀ t, ¬ O t) {t : TaskId} (ht : t ∈ g.ids)
    (hres : ¬ s.Resolved t) : ∃ m ∈ g.ids, s.queue (s.sandboxOf m) ≠ [] := by
  have hne : g.ids.filter (fun u => decide (¬ s.Resolved u)) ≠ [] :=
    List.ne_nil_of_mem (List.mem_filter.mpr ⟨ht, decide_eq_true hres⟩)
  obtain ⟨m, hm, hmin⟩ := hac.exists_minimal hne
  obtain ⟨hmem, hmres⟩ := List.mem_filter.mp hm
  have hmres : ¬ s.Resolved m := of_decide_eq_true hmres
  obtain ⟨task, htask, rfl⟩ := List.mem_map.mp hmem
  have hl := h.lookup_task hu htask
  -- every dependency is resolved, and none failed or was skipped
  have hdone : ∀ d ∈ task.deps, d ∈ s.completed := by
    intro d hd
    by_contra hc
    obtain ⟨hf, hs⟩ := h.noDoomed _ task hl hmres d hd
    refine hmin d (List.mem_filter.mpr ⟨hcl task htask d hd, ?_⟩) ⟨task, htask, rfl, hd⟩
    exact decide_eq_true fun hr => hr.elim hc fun hr => hr.elim hs hf
  have hready : ReadyTo g H s task.id := by
    refine ⟨fun hH => ?_, fun hs => hmres (.inr (.inl hs)),
      task, htask, rfl, unsatisfied_eq_zero.mpr hdone⟩
    rcases (h.status _).mp hH with ho | hc | hf
    · exact hidle _ ho
    · exact hmres (.inl hc)
    · exact hmres (.inr (.inr hf))
  refine ⟨task.id, hmem, fun hnil => ?_⟩
  have hcount := h.queued _ hready
  rw [hnil] at hcount
  cases hcount

end Counts

/-- **The books of the scheduler balance.**  In every state of a run, retries included,
no task is in two of the four sets, the counts of `get_stats` add up, `is_complete` says
whether every task is resolved or out, and an idle scheduler has resolved every task. -/
theorem scheduler_accounts {g : TaskGraph} (hu : g.UniqueIds) (hcl : g.Closed) (hac : g.Acyclic)
    (hints : HashMap TaskId SandboxName) {τ : Trace} {s : Scheduler}
    (h : Run (new g hints) τ s) (hm : MarksHanded τ) :
    s.statusSets.Pairwise Disjoint ∧
    s.getStats.completed + s.getStats.failed + s.getStats.skipped + s.getStats.running +
      s.getStats.pending = s.getStats.totalTasks ∧
    (s.isComplete = true ↔ ∀ t ∈ g.ids, s.Resolved t ∨ Outstanding τ t) ∧
    (AllMarked τ → (∀ sb, s.queue sb = []) → (∀ t, t ∉ s.running) →
      ∀ t ∈ g.ids, s.Resolved t) := by
  have hinv := h.inv hu
  have hrun : ∀ t, t ∈ s.running → Outstanding τ t := fun t ht =>
    hm.outstanding h ((h.running t).mp ht)
  refine ⟨hinv.statusSets_disjoint hrun, hinv.stats_sum hrun fun t ht => h.skipped_ids hu ht,
    hinv.isComplete_iff_dispatched fun t ht => counter_of_handed hu h ht, ?_⟩
  intro hmarked hempty hidle t ht
  by_contra hres
  have hnone : ∀ u, ¬ Outstanding τ u := fun u hO => hidle u ((h.running u).mpr (hmarked u hO))
  obtain ⟨m, -, hq⟩ := hinv.exists_queued hu hcl hac hnone ht hres
  exact hq (hempty _)

/-- `a` of the long chain was handed out and marked started. -/
def longChainStarted : Scheduler :=
  ((new longChain ∅).getReadyTask "default").1.markTaskStarted "a"
    ⟨"agent-1", "default", "c-1", some "a"⟩

theorem scheduler_accounts_longChain :
    longChainStarted.getStats.running = 1 ∧
      longChainStarted.getStats.completed + longChainStarted.getStats.failed +
        longChainStarted.getStats.skipped + longChainStarted.getStats.running +
        longChainStarted.getStats.pending = longChainStarted.getStats.totalTasks := by
  have hrun : Run (new longChain ∅)
      [⟨.markTaskStarted "a" ⟨"agent-1", "default", "c-1", some "a"⟩, .unit⟩,
        ⟨.getReadyTask "default", .ready (some "a")⟩] longChainStarted :=
    .next (.markTaskStarted "a" ⟨"agent-1", "default", "c-1", some "a"⟩)
      (.next (.getReadyTask "default") .start nofun) nofun
  have hm : MarksHanded
      [⟨.markTaskStarted "a" ⟨"agent-1", "default", "c-1", some "a"⟩, .unit⟩,
        ⟨.getReadyTask "default", .ready (some "a")⟩] := by
    simp [MarksHanded, Outstanding, Event.Hands]
  exact ⟨by decide,
    (scheduler_accounts (by decide) (by decide) longChain_acyclic ∅ hrun hm).2.1⟩

end Mowis.Scheduling
