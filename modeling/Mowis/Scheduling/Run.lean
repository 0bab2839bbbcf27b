import Mowis.Scheduling.Ops

/-!
# Runs of the scheduler

A run is a sequence of operations in which an outcome is reported only for a task
that was handed out and not yet reported.  The trace keeps every operation with
its result, newest first.

`Inv` relates the counters and queues to the sets.  It is parametrised by two
predicates on ids, "handed out since the last successful retry" and "handed out
and not yet reported"; in a run they are `Handed` and `Outstanding` of the trace.
`Run.inv` carries it along every run of a plan with unique ids.
-/

namespace Mowis.Scheduling

open Mowis.Lib Scheduler

inductive Op where
  | getReadyTask (sandbox : SandboxName)
  | markTaskStarted (t : TaskId) (agent : AgentHandle)
  | handleTaskCompletion (result : AgentResult)
  | handleTaskFailure (t : TaskId) (error : String)
  | retryTask (t : TaskId)
  deriving DecidableEq

inductive Ret where
  | ready (t : Option TaskId)
  | unit
  | retried (ok : Bool)
  deriving DecidableEq

def Op.reported : Op → Option TaskId
  | .handleTaskCompletion result => some result.taskId
  | .handleTaskFailure t _ => some t
  | _ => none

def Scheduler.step (s : Scheduler) : Op → Scheduler × Ret
  | .getReadyTask sandbox => ((s.getReadyTask sandbox).1, .ready (s.getReadyTask sandbox).2)
  | .markTaskStarted t agent => (s.markTaskStarted t agent, .unit)
  | .handleTaskCompletion result => (s.handleTaskCompletion result, .unit)
  | .handleTaskFailure t error => (s.handleTaskFailure t error, .unit)
  | .retryTask t => ((s.retryTask t).1, .retried (s.retryTask t).2)

structure Event where
  op : Op
  ret : Ret
  deriving DecidableEq

namespace Event

/-- `get_ready_task` returned `t`. -/
def Hands (e : Event) (t : TaskId) : Prop := e.ret = .ready (some t)

def Reports (e : Event) (t : TaskId) : Prop := e.op.reported = some t

/-- `retry_task` of `t` returned `true`. -/
def Retries (e : Event) (t : TaskId) : Prop := e.op = .retryTask t ∧ e.ret = .retried true

instance (e : Event) (t : TaskId) : Decidable (e.Hands t) := inferInstanceAs (Decidable (_ = _))
instance (e : Event) (t : TaskId) : Decidable (e.Reports t) := inferInstanceAs (Decidable (_ = _))
instance (e : Event) (t : TaskId) : Decidable (e.Retries t) := inferInstanceAs (Decidable (_ ∧ _))

end Event

/-- The operations of a run with their results, newest first. -/
abbrev Trace := List Event

/-- `t` was handed out and its outcome is not reported yet. -/
def Outstanding : Trace → TaskId → Prop
  | [], _ => False
  | e :: τ, t => e.Hands t ∨ (Outstanding τ t ∧ ¬ e.Reports t)

/-- `t` was handed out and not successfully retried since. -/
def Handed : Trace → TaskId → Prop
  | [], _ => False
  | e :: τ, t => e.Hands t ∨ (Handed τ t ∧ ¬ e.Retries t)

/-- If `t` does not count as handed out, every time it was handed out is followed
by a successful retry. -/
theorem exists_retry_of_not_handed {t : TaskId} (τ : Trace) (h : ¬ Handed τ t)
    (later earlier : Trace) (e : Event) (hτ : τ = later ++ e :: earlier) (he : e.Hands t) :
    ∃ e' ∈ later, e'.Retries t := by
  induction later generalizing τ with
  | nil =>
    subst hτ
    exact absurd (Or.inl he) h
  | cons e' later ih =>
    subst hτ
    by_cases hr : e'.Retries t
    · exact ⟨e', List.mem_cons_self, hr⟩
    · have hrest : ¬ Handed (later ++ e :: earlier) t := fun hh => h (.inr ⟨hh, hr⟩)
      obtain ⟨e'', hmem, hr'⟩ := ih _ hrest rfl
      exact ⟨e'', List.mem_cons_of_mem _ hmem, hr'⟩

/-- A run of scheduler operations from `init`, with the trace it leaves. -/
inductive Run (init : Scheduler) : Trace → Scheduler → Prop
  | start : Run init [] init
  | next {τ : Trace} {s : Scheduler} (op : Op) : Run init τ s →
      (∀ t, op.reported = some t → Outstanding τ t) →
      Run init (⟨op, (s.step op).2⟩ :: τ) (s.step op).1

theorem unsatisfied_eq_zero {s : Scheduler} {task : Task} :
    s.unsatisfied task = 0 ↔ ∀ d ∈ task.deps, d ∈ s.completed := by
  rw [unsatisfied, List.length_eq_zero_iff, List.filter_eq_nil_iff]
  simp

theorem unsatisfied_insert (s : Scheduler) (task : Task) (d : TaskId) (hd : d ∉ s.completed) :
    ({ s with completed := insert d s.completed } : Scheduler).unsatisfied task
      + task.deps.count d = s.unsatisfied task := by
  simp only [unsatisfied]
  induction task.deps with
  | nil => rfl
  | cons x xs ih =>
    by_cases hx : x = d
    · subst hx
      simp [hd] at ih ⊢
      omega
    · by_cases hc : x ∈ s.completed
      · simp [hc, hx] at ih ⊢
        omega
      · simp [hc, hx] at ih ⊢
        omega

/-- Nothing keeps `t` from being handed out. -/
def ReadyTo (g : TaskGraph) (H : TaskId → Prop) (s : Scheduler) (t : TaskId) : Prop :=
  ¬ H t ∧ t ∉ s.skipped ∧ ∃ task ∈ g.tasks, task.id = t ∧ s.unsatisfied task = 0

/-- The tables that no operation changes. -/
structure Static (g : TaskGraph) (hints : HashMap TaskId SandboxName) (s : Scheduler) : Prop where
  taskGraph : s.taskGraph = buildTaskMap g
  dependents : s.dependents = buildDependents g
  sandboxHints : s.sandboxHints = hints
  totalTasks : s.totalTasks = g.tasks.length

structure Inv (g : TaskGraph) (hints : HashMap TaskId SandboxName) (H O : TaskId → Prop)
    (s : Scheduler) : Prop where
  static : Static g hints s
  /-- Exactly the ids of the plan have counters. -/
  counters : ∀ t, s.depCounter.lookup t = none ↔ t ∉ g.ids
  /-- The counter of a task still to be handed out is exact. -/
  counter : ∀ task ∈ g.tasks, ¬ H task.id → task.id ∉ s.skipped →
    s.depCounter.lookup task.id = some (s.unsatisfied task)
  queued : ∀ t, ReadyTo g H s t → (s.queue (s.sandboxOf t)).count t = 1
  unqueued : ∀ sb t, ¬ (sb = s.sandboxOf t ∧ ReadyTo g H s t) → (s.queue sb).count t = 0
  /-- A task is handed out with all dependencies completed, and is never skipped. -/
  handed : ∀ t, H t →
    t ∉ s.skipped ∧ ∃ task ∈ g.tasks, task.id = t ∧ s.unsatisfied task = 0
  status : ∀ t, H t ↔ O t ∨ t ∈ s.completed ∨ t ∈ s.failed
  outstanding : ∀ t, O t → t ∉ s.completed ∧ t ∉ s.failed
  disjoint : ∀ t, t ∈ s.completed → t ∉ s.failed
  noDoomed : s.NoDoomed

theorem Static.unlockDependents {g : TaskGraph} {hints : HashMap TaskId SandboxName}
    {s : Scheduler} (hs : Static g hints s) (t : TaskId) :
    Static g hints (s.unlockDependents t) := by
  obtain ⟨dc, rq, hframe⟩ := s.unlockDependents_frame t
  rw [hframe]
  exact ⟨hs.1, hs.2, hs.3, hs.4⟩

namespace Inv

variable {g : TaskGraph} {hints : HashMap TaskId SandboxName} {H O H' O' : TaskId → Prop}
  {s : Scheduler}

theorem congr (h : Inv g hints H O s) (hH : ∀ t, H' t ↔ H t) (hO : ∀ t, O' t ↔ O t) :
    Inv g hints H' O' s := by
  obtain rfl : H' = H := funext fun t => propext (hH t)
  obtain rfl : O' = O := funext fun t => propext (hO t)
  exact h

theorem bookkeeping (h : Inv g hints H O s) (running : HashMap TaskId AgentHandle)
    (results : HashMap TaskId AgentResult) :
    Inv g hints H O { s with running := running, results := results } :=
  ⟨⟨h.static.1, h.static.2, h.static.3, h.static.4⟩, h.counters, h.counter, h.queued, h.unqueued,
    h.handed, h.status, h.outstanding, h.disjoint, h.noDoomed⟩

theorem lookup_task (hu : g.UniqueIds) (h : Inv g hints H O s) {task : Task}
    (ht : task ∈ g.tasks) : s.taskGraph.lookup task.id = some task := by
  rw [h.static.taskGraph]
  exact lookup_of_mem hu ht

theorem dependentsComplete (hs : Static g hints s) : s.DependentsComplete := by
  intro t task hl d hd
  rw [hs.taskGraph] at hl
  obtain ⟨hmem, hid⟩ := mem_of_lookup_buildTaskMap hl
  rw [dependentsOf, hs.dependents, mem_bucket_buildDependents]
  exact ⟨task, hmem, hid, hd⟩

theorem count_dependentsOf (hu : g.UniqueIds) (hs : Static g hints s) {task : Task}
    (htask : task ∈ g.tasks) (t : TaskId) :
    (s.dependentsOf t).count task.id = task.deps.count t := by
  rw [dependentsOf, hs.dependents]
  exact count_dependents hu htask t

theorem eq_of_id_eq (hu : g.UniqueIds) {a b : Task} (ha : a ∈ g.tasks) (hb : b ∈ g.tasks)
    (h : a.id = b.id) : a = b := List.inj_on_of_nodup_map hu ha hb h

theorem init (hu : g.UniqueIds) (hints : HashMap TaskId SandboxName) :
    Inv g hints (fun _ => False) (fun _ => False) (new g hints) := by
  have hunsat : ∀ task : Task, (new g hints).unsatisfied task = task.deps.length := by
    intro task
    simp [unsatisfied, new]
  have hready : ∀ t, ReadyTo g (fun _ => False) (new g hints) t ↔
      ∃ task ∈ g.tasks, task.id = t ∧ task.deps = [] := by
    intro t
    simp only [ReadyTo, hunsat, List.length_eq_zero_iff]
    simp [new]
  have hnodup := nodup_bucket_buildReadyQueues hu hints
  refine ⟨⟨rfl, rfl, rfl, rfl⟩, fun t => ?_, fun task ht _ _ => ?_, fun t ht => ?_,
    fun sb t ht => ?_, fun _ h => h.elim, fun t => ?_, fun _ h => h.elim, fun t ht => ?_,
    fun t task _ _ d _ => ?_⟩
  · show (buildDepCounter g).lookup t = none ↔ t ∉ g.ids
    rw [lookup_buildDepCounter, Option.map_eq_none_iff, mem_ids_iff_lookup, ← Option.isSome_iff_exists]
    simp
  · show (buildDepCounter g).lookup task.id = _
    rw [lookup_buildDepCounter, lookup_of_mem hu ht, hunsat]
    rfl
  · have hmem : t ∈ (new g hints).queue (sandboxFor hints t) :=
      mem_bucket_buildReadyQueues.mpr ⟨rfl, (hready t).mp ht⟩
    exact List.count_eq_one_of_mem (hnodup _) hmem
  · rw [List.count_eq_zero]
    intro hmem
    obtain ⟨hsb, htask⟩ := mem_bucket_buildReadyQueues.mp hmem
    exact ht ⟨hsb.symm, (hready t).mpr htask⟩
  · simp [new]
  · simp [new] at ht
  · simp [new]

/-! ### Each operation keeps the invariant -/

theorem pop (h : Inv g hints H O s) {sb : SandboxName} {s' : Scheduler} {t : TaskId}
    (hpop : s.getReadyTask sb = (s', some t)) :
    ReadyTo g H s t ∧
      Inv g hints (fun u => u = t ∨ H u) (fun u => u = t ∨ O u) s' := by
  obtain ⟨rest, hq, rfl⟩ := s.getReadyTask_some hpop
  have hcount : (s.queue sb).count t ≠ 0 := by
    rw [hq, List.count_cons_self]
    omega
  obtain ⟨hsb, hready⟩ : sb = s.sandboxOf t ∧ ReadyTo g H s t :=
    by_contra fun hno => hcount (h.unqueued sb t hno)
  refine ⟨hready, ?_⟩
  obtain ⟨hH, hskip, hwit⟩ := hready
  have hnot : ¬ (O t ∨ t ∈ s.completed ∨ t ∈ s.failed) := fun hs => hH ((h.status t).mpr hs)
  -- the other tasks are queued as before, and `t` is queued nowhere
  have hready' : ∀ u, ReadyTo g (fun u => u = t ∨ H u)
      ({ s with readyQueues := s.readyQueues.insert sb rest } : Scheduler) u ↔
        u ≠ t ∧ ReadyTo g H s u := by
    intro u
    simp only [ReadyTo, not_or]
    constructor
    · rintro ⟨⟨hne, hHu⟩, hrest⟩
      exact ⟨hne, hHu, hrest⟩
    · rintro ⟨hne, hHu, hrest⟩
      exact ⟨⟨hne, hHu⟩, hrest⟩
  have hqueue : ∀ sb' u, (({ s with readyQueues := s.readyQueues.insert sb rest } : Scheduler).queue
      sb').count u = if u = t ∧ sb' = sb then (s.queue sb').count u - 1 else (s.queue sb').count u := by
    intro sb' u
    rw [queue_insert_readyQueues]
    by_cases hsb' : sb' = sb
    · subst hsb'
      rw [if_pos rfl, hq]
      by_cases hut : u = t
      · subst hut
        simp
      · simp [hut, List.count_cons_of_ne (Ne.symm hut)]
    · simp [hsb']
  refine ⟨⟨h.static.1, h.static.2, h.static.3, h.static.4⟩, h.counters,
    fun task htask hH' hs => h.counter task htask (fun hh => hH' (.inr hh)) hs,
    fun u hu => ?_, fun sb' u hu => ?_, fun u hu => ?_, fun u => ?_, fun u hu => ?_, h.disjoint,
    h.noDoomed⟩
  · obtain ⟨hne, hru⟩ := (hready' u).mp hu
    rw [hqueue, if_neg fun hh => hne hh.1]
    exact h.queued u hru
  · rw [hqueue]
    by_cases hut : u = t ∧ sb' = sb
    · obtain ⟨rfl, rfl⟩ := hut
      rw [if_pos ⟨rfl, rfl⟩, hsb, h.queued u ⟨hH, hskip, hwit⟩]
    · rw [if_neg hut]
      apply h.unqueued
      rintro ⟨hsb', hru⟩
      refine hu ⟨hsb', (hready' u).mpr ⟨?_, hru⟩⟩
      rintro rfl
      exact hut ⟨rfl, hsb'.trans hsb.symm⟩
  · rcases hu with rfl | hu
    · exact ⟨hskip, hwit⟩
    · exact h.handed u hu
  · show u = t ∨ H u ↔ (u = t ∨ O u) ∨ u ∈ s.completed ∨ u ∈ s.failed
    rw [h.status u, or_assoc]
  · rcases hu with rfl | hu
    · exact ⟨fun hc => hnot (.inr (.inl hc)), fun hf => hnot (.inr (.inr hf))⟩
    · exact h.outstanding u hu

section success

variable {t : TaskId}

theorem not_blocked (h : Inv g hints H O s) {u : TaskId} (hH : ¬ H u) (hs : u ∉ s.skipped) :
    ¬ s.Blocked u := by
  intro hb
  obtain hf | hs' := hb
  · exact hH ((h.status u).mpr (.inr (.inr hf)))
  · exact hs hs'

theorem count_of_unsatisfied (hu : g.UniqueIds) (h : Inv g hints H O s) {task : Task}
    (htask : task ∈ g.tasks) (hz : s.unsatisfied task ≠ 0) (sb : SandboxName) :
    (s.queue sb).count task.id = 0 := by
  refine h.unqueued sb task.id fun hready => ?_
  obtain ⟨-, -, -, task', htask', hid, hz'⟩ := hready
  obtain rfl := eq_of_id_eq hu htask' htask hid
  exact hz hz'

/-- The scheduler after `t` has succeeded. -/
abbrev succeed (s : Scheduler) (t : TaskId) : Scheduler :=
  ({ s with completed := insert t s.completed } : Scheduler).unlockDependents t

theorem unsatisfied_succeed (hnc : t ∉ s.completed) (task : Task) :
    (succeed s t).unsatisfied task + task.deps.count t = s.unsatisfied task := by
  rw [succeed, unsatisfied_unlockDependents]
  exact unsatisfied_insert s task t hnc

theorem static_succeed (hs : Static g hints s) : Static g hints (succeed s t) := by
  have hs₁ : Static g hints { s with completed := insert t s.completed } :=
    ⟨hs.1, hs.2, hs.3, hs.4⟩
  exact hs₁.unlockDependents t

theorem view_succeed (hu : g.UniqueIds) (h : Inv g hints H O s) (hnc : t ∉ s.completed)
    {task : Task} (htask : task ∈ g.tasks) (hH : ¬ H task.id) (hs : task.id ∉ s.skipped) :
    (succeed s t).depCounter.lookup task.id = some ((succeed s t).unsatisfied task) ∧
      ∀ sb, ((succeed s t).queue sb).count task.id = (s.queue sb).count task.id +
        if sb = s.sandboxOf task.id ∧ s.unsatisfied task ≠ 0 ∧ (succeed s t).unsatisfied task = 0
        then 1 else 0 := by
  have hsum := unsatisfied_succeed hnc task
  have hlist := count_dependentsOf hu h.static htask t
  obtain ⟨hlook, hcount⟩ := unlockDependents_view { s with completed := insert t s.completed } t
    (h.not_blocked hH hs) (h.counter task htask hH hs)
  have hlist' : (({ s with completed := insert t s.completed } : Scheduler).dependentsOf t).count
      task.id = task.deps.count t := hlist
  rw [hlist'] at hlook hcount
  refine ⟨?_, fun sb => ?_⟩
  · rw [hlook, iterate_fetchSub _ _ (by omega)]
    exact congrArg some (by omega)
  · rw [hcount, crossings_of_le _ _ (by omega)]
    show (s.queue sb).count task.id + (if sb = s.sandboxOf task.id then _ else 0) = _
    by_cases hsb : sb = s.sandboxOf task.id
    · rw [if_pos hsb]
      refine congrArg (_ + ·) (if_congr ?_ rfl rfl)
      rw [and_iff_right hsb]
      omega
    · rw [if_neg hsb, if_neg fun hh => hsb hh.1]

theorem count_succeed (hu : g.UniqueIds) (h : Inv g hints H O s) (hnc : t ∉ s.completed)
    {u : TaskId} (hout : H u ∨ u ∈ s.skipped ∨ u ∉ g.ids) (sb : SandboxName) :
    ((succeed s t).queue sb).count u = 0 := by
  have hzero : (s.queue sb).count u = 0 := by
    refine h.unqueued sb u fun hready => ?_
    obtain ⟨-, hH, hs, task, htask, rfl, -⟩ := hready
    obtain hout | hout | hout := hout
    · exact hH hout
    · exact hs hout
    · exact hout (List.mem_map_of_mem htask)
  by_cases hb : s.Blocked u ∨ s.depCounter.lookup u = none
  · exact ((unlockDependents_inert { s with completed := insert t s.completed } t hb).2 sb).trans hzero
  · -- the task was handed out: its dependencies are completed, so `t` is not one of them
    obtain ⟨hb, hsome⟩ := not_or.mp hb
    obtain ⟨c, hc⟩ := Option.ne_none_iff_exists'.mp hsome
    have hH : H u := by
      obtain hout | hout | hout := hout
      · exact hout
      · exact absurd (.inr hout) hb
      · exact absurd ((h.counters u).mpr hout) hsome
    obtain ⟨-, task, htask, rfl, hz⟩ := h.handed u hH
    have hsum := unsatisfied_succeed hnc task
    have hnone : (({ s with completed := insert t s.completed } : Scheduler).dependentsOf t).count
        task.id = 0 := by
      have hlist := count_dependentsOf hu h.static htask t
      exact hlist.trans (by omega)
    have hcount := (unlockDependents_view { s with completed := insert t s.completed } t hb hc).2 sb
    rw [hnone, crossings, ite_self] at hcount
    exact hcount.trans hzero

/-- A success: the dependents' counters drop by their listings of `t`, and those
that reach zero are queued. -/
theorem complete (hu : g.UniqueIds) (h : Inv g hints H O s) {t : TaskId} (hO : O t) :
    Inv g hints H (fun u => O u ∧ u ≠ t)
      (({ s with completed := insert t s.completed } : Scheduler).unlockDependents t) := by
  have hnc : t ∉ s.completed := (h.outstanding t hO).1
  have hcompleted : (succeed s t).completed = insert t s.completed :=
    completed_unlockDependents _ t
  have hfailed : (succeed s t).failed = s.failed := failed_unlockDependents _ t
  have hskipped : (succeed s t).skipped = s.skipped := skipped_unlockDependents _ t
  have hsand : ∀ u, (succeed s t).sandboxOf u = s.sandboxOf u := sandboxOf_unlockDependents _ t
  have hsum := unsatisfied_succeed hnc
  show Inv g hints H (fun u => O u ∧ u ≠ t) (succeed s t)
  refine ⟨static_succeed h.static, fun u => ?_, fun task htask hHu hsk => ?_, fun u hr => ?_,
    fun sb u hno => ?_, fun u hHu => ?_, fun u => ?_, fun u hOu => ?_, fun u hc => ?_, ?_⟩
  · rw [← h.counters u]
    by_cases hb : s.Blocked u ∨ s.depCounter.lookup u = none
    · rw [(unlockDependents_inert { s with completed := insert t s.completed } t hb).1]
    · obtain ⟨hb, hsome⟩ := not_or.mp hb
      obtain ⟨c, hc⟩ := Option.ne_none_iff_exists'.mp hsome
      rw [(unlockDependents_view { s with completed := insert t s.completed } t hb hc).1, hc]
      simp
  · rw [hskipped] at hsk
    exact (view_succeed hu h hnc htask hHu hsk).1
  · obtain ⟨hHu, hsk, task, htask, rfl, hz⟩ := hr
    rw [hskipped] at hsk
    rw [hsand, (view_succeed hu h hnc htask hHu hsk).2]
    by_cases h0 : s.unsatisfied task = 0
    · rw [h.queued _ ⟨hHu, hsk, task, htask, rfl, h0⟩, if_neg fun hh => hh.2.1 h0]
    · rw [count_of_unsatisfied hu h htask h0, if_pos ⟨rfl, h0, hz⟩]
  · by_cases hout : H u ∨ u ∈ s.skipped ∨ u ∉ g.ids
    · exact count_succeed hu h hnc hout sb
    · simp only [not_or, not_not] at hout
      obtain ⟨hHu, hsk, hids⟩ := hout
      obtain ⟨task, htask, rfl⟩ := List.mem_map.mp hids
      have hready : ¬ (sb = s.sandboxOf task.id ∧ (succeed s t).unsatisfied task = 0) := by
        intro hh
        refine hno ⟨hh.1.trans (hsand _).symm, hHu, ?_, task, htask, rfl, hh.2⟩
        rwa [hskipped]
      have hzero : (s.queue sb).count task.id = 0 := by
        refine h.unqueued sb _ fun hh => hready ⟨hh.1, ?_⟩
        obtain ⟨-, -, -, task', htask', hid, hz⟩ := hh
        obtain rfl := eq_of_id_eq hu htask' htask hid
        have := hsum task'
        omega
      rw [(view_succeed hu h hnc htask hHu hsk).2, hzero, if_neg fun hh => hready ⟨hh.1, hh.2.2⟩]
  · obtain ⟨hsk, task, htask, hid, hz⟩ := h.handed u hHu
    have := hsum task
    exact ⟨hskipped ▸ hsk, task, htask, hid, by omega⟩
  · rw [hcompleted, hfailed, h.status u, Finset.mem_insert]
    by_cases hut : u = t
    · subst hut
      simp [hO]
    · simp [hut]
  · obtain ⟨hOu, hne⟩ := hOu
    obtain ⟨hc, hf⟩ := h.outstanding u hOu
    rw [hcompleted, hfailed, Finset.mem_insert, not_or]
    exact ⟨⟨hne, hc⟩, hf⟩
  · rw [hcompleted] at hc
    rw [hfailed]
    obtain rfl | hc := Finset.mem_insert.mp hc
    · exact (h.outstanding u hO).2
    · exact h.disjoint u hc
  · intro u task hl hres d hd
    rw [hfailed, hskipped]
    refine h.noDoomed u task (by rwa [succeed, taskGraph_unlockDependents] at hl) (fun hr => hres ?_)
      d hd
    simp only [Resolved, hcompleted, hfailed, hskipped, Finset.mem_insert]
    exact hr.imp_left .inr

end success

theorem fail (hu : g.UniqueIds) (h : Inv g hints H O s) {t : TaskId} (hO : O t) (error : String) :
    Inv g hints H (fun u => O u ∧ u ≠ t)
      (({ s with failed := s.failed.insert t error } : Scheduler).skipDependents t) := by
  set s₁ : Scheduler := { s with failed := s.failed.insert t error } with hs₁
  have hfailed₁ : ∀ u, u ∈ s₁.failed ↔ u = t ∨ u ∈ s.failed := fun u => AList.mem_insert _
  have hstatic₁ : Static g hints s₁ := ⟨h.static.1, h.static.2, h.static.3, h.static.4⟩
  have hcov : s₁.Covers (s₁.dependentsOf t) := by
    intro u task hl hres d hd hbad
    have hres' : ¬ s.Resolved u := by
      rintro (hr | hr | hr)
      · exact hres (.inl hr)
      · exact hres (.inr (.inl hr))
      · exact hres (.inr (.inr ((hfailed₁ u).mpr (.inr hr))))
    obtain ⟨hnf, hns⟩ := h.noDoomed u task hl hres' d hd
    rcases hbad with hbad | hbad
    · rcases (hfailed₁ d).mp hbad with rfl | hbad
      · exact dependentsComplete hstatic₁ u task hl d hd
      · exact absurd hbad hnf
    · exact absurd hbad hns
  have hno := skipLoop_noDoomed s₁ _ (dependentsComplete hstatic₁) hcov
  have hspec := skipLoop_spec s₁ (s₁.dependentsOf t)
  have hdef : s₁.skipDependents t = s₁.skipLoop (s₁.dependentsOf t) := rfl
  rw [← hdef] at hno hspec
  set s₂ := s₁.skipDependents t with hs₂
  have hcompleted : s₂.completed = s.completed := by rw [hspec.frame]
  have hfailed : s₂.failed = s₁.failed := by rw [hspec.frame]
  have hunsat : ∀ task, s₂.unsatisfied task = s.unsatisfied task := by
    intro task
    simp only [unsatisfied, hcompleted]
  have hsand : ∀ u, s₂.sandboxOf u = s.sandboxOf u := by
    intro u
    rw [hspec.frame]
    rfl
  have hcounter : s₂.depCounter = s.depCounter := by rw [hspec.frame]
  -- a task that was handed out has completed dependencies only
  have hspared : ∀ u, H u → u ∉ s₂.skipped := by
    intro u hHu hmem
    obtain ⟨hsk, task, htask, rfl, hz⟩ := h.handed u hHu
    rcases hspec.cause _ hmem with hm | hcause
    · exact hsk hm
    · obtain ⟨d, hd, hbad⟩ := hcause task (h.lookup_task hu htask)
      have hdc := unsatisfied_eq_zero.mp hz d hd
      rcases hbad with hbad | hbad
      · rcases (hfailed₁ d).mp hbad with rfl | hbad
        · exact (h.outstanding d hO).1 hdc
        · exact h.disjoint d hdc hbad
      · rcases hspec.fresh d hbad with hbad | hbad
        · exact (h.handed d ((h.status d).mpr (.inr (.inl hdc)))).1 hbad
        · exact hbad (.inl hdc)
  have hready₂ : ∀ u, ReadyTo g H s₂ u ↔ u ∉ s₂.skipped ∧ ReadyTo g H s u := by
    intro u
    simp only [ReadyTo, hunsat]
    constructor
    · rintro ⟨hHu, hsk, hrest⟩
      exact ⟨hsk, hHu, fun hm => hsk (hspec.grow hm), hrest⟩
    · rintro ⟨hsk, hHu, -, hrest⟩
      exact ⟨hHu, hsk, hrest⟩
  have hqueue : ∀ sb u, (s₂.queue sb).count u =
      if u ∈ s₂.skipped → u ∈ s.skipped then (s.queue sb).count u else 0 := by
    intro sb u
    rw [hspec.queue sb]
    split
    · rename_i hkeep
      exact List.count_filter (decide_eq_true hkeep)
    · rename_i hdrop
      rw [List.count_eq_zero]
      intro hmem
      exact hdrop (of_decide_eq_true (List.mem_filter.mp hmem).2)
  refine ⟨?_, ?_, fun task htask hHu hsk => ?_, fun u hr => ?_, fun sb u hnr => ?_,
    fun u hHu => ?_, fun u => ?_, fun u hOu => ?_, fun u hc => ?_, hno⟩
  · rw [hspec.frame]
    exact ⟨h.static.1, h.static.2, h.static.3, h.static.4⟩
  · rw [hcounter]
    exact h.counters
  · rw [hcounter, hunsat]
    exact h.counter task htask hHu fun hm => hsk (hspec.grow hm)
  · obtain ⟨hsk, hr⟩ := (hready₂ u).mp hr
    rw [hsand, hqueue, if_pos fun hm => absurd hm hsk]
    exact h.queued u hr
  · rw [hqueue]
    split
    · rename_i hkeep
      apply h.unqueued
      rintro ⟨hsb, hr⟩
      exact hnr ⟨hsb.trans (hsand u).symm, (hready₂ u).mpr ⟨fun hm => hr.2.1 (hkeep hm), hr⟩⟩
    · rfl
  · obtain ⟨-, task, htask, hid, hz⟩ := h.handed u hHu
    exact ⟨hspared u hHu, task, htask, hid, (hunsat task).trans hz⟩
  · rw [hcompleted, hfailed, hfailed₁, h.status u]
    by_cases hut : u = t
    · subst hut
      simp [hO]
    · simp [hut]
  · obtain ⟨hOu, hne⟩ := hOu
    obtain ⟨hc, hf⟩ := h.outstanding u hOu
    rw [hcompleted, hfailed, hfailed₁, not_or]
    exact ⟨hc, hne, hf⟩
  · rw [hcompleted] at hc
    rw [hfailed, hfailed₁, not_or]
    refine ⟨?_, h.disjoint u hc⟩
    rintro rfl
    exact (h.outstanding u hO).1 hc

theorem retry (hu : g.UniqueIds) (h : Inv g hints H O s) {t : TaskId} (hf : t ∈ s.failed) :
    (s.retryTask t).2 = true ∧
      Inv g hints (fun u => H u ∧ u ≠ t) O (s.retryTask t).1 := by
  have hHt : H t := (h.status t).mpr (.inr (.inr hf))
  obtain ⟨hsk, task, htask, rfl, hz⟩ := h.handed t hHt
  have hids : task.id ∈ g.ids := List.mem_map.mpr ⟨task, htask, rfl⟩
  have hsome : s.depCounter.lookup task.id ≠ none := fun hn => (h.counters _).mp hn hids
  obtain ⟨c, hc⟩ := Option.ne_none_iff_exists'.mp hsome
  have hl := h.lookup_task hu htask
  have hdef : s.retryTask task.id =
      (({ s with failed := s.failed.erase task.id,
                 depCounter := s.depCounter.insert task.id 0 } : Scheduler).enqueue task.id, true) := by
    have hz' : ({ s with failed := s.failed.erase task.id } : Scheduler).unsatisfied task = 0 := hz
    rw [retryTask, if_pos hf]
    simp only [hl, hc, hz', if_pos]
  rw [hdef]
  refine ⟨rfl, ?_⟩
  set s₁ : Scheduler := { s with failed := s.failed.erase task.id,
                                 depCounter := s.depCounter.insert task.id 0 } with hs₁
  have hfailed : ∀ u, u ∈ (s₁.enqueue task.id).failed ↔ u ≠ task.id ∧ u ∈ s.failed := fun u =>
    AList.mem_erase
  have hnot : ¬ O task.id ∧ task.id ∉ s.completed :=
    ⟨fun ho => (h.outstanding _ ho).2 hf, fun hcm => h.disjoint _ hcm hf⟩
  have hlook : ∀ u, (s₁.enqueue task.id).depCounter.lookup u =
      if u = task.id then some 0 else s.depCounter.lookup u := fun u =>
    HashMap.lookup_insert_eq_ite _ _ _ _
  have hqueue : ∀ sb u, ((s₁.enqueue task.id).queue sb).count u =
      (s.queue sb).count u + if u = task.id ∧ sb = s.sandboxOf u then 1 else 0 := by
    intro sb u
    rw [queue_enqueue, List.count_append]
    show (s.queue sb).count u + List.count u (if sb = s.sandboxOf task.id then [task.id] else []) = _
    by_cases hut : u = task.id
    · subst hut
      split <;> simp_all
    · have hcnt : List.count u (if sb = s.sandboxOf task.id then [task.id] else []) = 0 := by
        split <;> simp [Ne.symm hut]
      simp [hcnt, hut]
  have hready : ∀ u, u ≠ task.id → (ReadyTo g (fun u => H u ∧ u ≠ task.id) (s₁.enqueue task.id) u ↔
      ReadyTo g H s u) := by
    intro u hne
    show (¬ (H u ∧ u ≠ task.id) ∧ u ∉ s.skipped ∧ ∃ task' ∈ g.tasks, task'.id = u ∧
      s.unsatisfied task' = 0) ↔ _
    simp [ReadyTo, hne]
  refine ⟨⟨h.static.1, h.static.2, h.static.3, h.static.4⟩, fun u => ?_,
    fun task' htask' hHu hsku => ?_, fun u hr => ?_, fun sb u hnr => ?_, fun u hHu => ?_,
    fun u => ?_, fun u hOu => ?_, fun u hcu => ?_, fun u task' hlu hres d hd => ?_⟩
  · rw [hlook]
    split
    · rename_i he
      simp [he, hids]
    · exact h.counters u
  · rw [hlook]
    by_cases he : task'.id = task.id
    · obtain rfl := eq_of_id_eq hu htask' htask he
      rw [if_pos rfl]
      exact congrArg some hz.symm
    · rw [if_neg he]
      exact h.counter task' htask' (fun hh => hHu ⟨hh, he⟩) hsku
  · rw [hqueue]
    show (s.queue (s.sandboxOf u)).count u + _ = 1
    by_cases he : u = task.id
    · subst he
      rw [h.unqueued _ _ fun hh => hh.2.1 hHt, if_pos ⟨rfl, rfl⟩]
    · rw [if_neg fun hh => he hh.1, h.queued u ((hready u he).mp hr)]
  · rw [hqueue]
    by_cases he : u = task.id
    · subst he
      have hsb : sb ≠ s.sandboxOf task.id := fun hsb =>
        hnr ⟨hsb, fun hh => hh.2 rfl, hsk, task, htask, rfl, hz⟩
      rw [if_neg fun hh => hsb hh.2, h.unqueued sb _ fun hh => hsb hh.1]
    · rw [if_neg fun hh => he hh.1]
      exact h.unqueued sb u fun hh => hnr ⟨hh.1, (hready u he).mpr hh.2⟩
  · exact h.handed u hHu.1
  · show H u ∧ u ≠ task.id ↔ O u ∨ u ∈ s.completed ∨ u ∈ (s₁.enqueue task.id).failed
    rw [hfailed, h.status u]
    by_cases he : u = task.id
    · subst he
      simp [hnot.1, hnot.2]
    · simp [he]
  · exact ⟨(h.outstanding u hOu).1, fun hm => (h.outstanding u hOu).2 ((hfailed u).mp hm).2⟩
  · exact fun hm => h.disjoint u hcu ((hfailed u).mp hm).2
  · rw [hfailed]
    by_cases he : u = task.id
    · -- the retried task itself: its dependencies are completed
      subst he
      obtain rfl := Option.some.inj (hlu.symm.trans hl)
      have hdc := unsatisfied_eq_zero.mp hz d hd
      exact ⟨fun hm => h.disjoint d hdc hm.2,
        (h.handed d ((h.status d).mpr (.inr (.inl hdc)))).1⟩
    · have hres' : ¬ s.Resolved u := by
        rintro (hr | hr | hr)
        · exact hres (.inl hr)
        · exact hres (.inr (.inl hr))
        · exact hres (.inr (.inr ((hfailed u).mpr ⟨he, hr⟩)))
      obtain ⟨hnf, hns⟩ := h.noDoomed u task' hlu hres' d hd
      exact ⟨fun hm => hnf hm.2, hns⟩

theorem report (hu : g.UniqueIds) (h : Inv g hints H O s) {result : AgentResult}
    (hO : O result.taskId) :
    Inv g hints H (fun u => O u ∧ u ≠ result.taskId) (s.handleTaskCompletion result) := by
  have hb := h.bookkeeping (s.running.erase result.taskId) (s.results.insert result.taskId result)
  rw [handleTaskCompletion]
  split
  · exact hb.complete hu hO
  · exact hb.fail hu hO _

theorem step (hu : g.UniqueIds) {τ : Trace} (h : Inv g hints (Handed τ) (Outstanding τ) s)
    (op : Op) (hop : ∀ t, op.reported = some t → Outstanding τ t) :
    Inv g hints (Handed (⟨op, (s.step op).2⟩ :: τ)) (Outstanding (⟨op, (s.step op).2⟩ :: τ))
      (s.step op).1 := by
  cases op with
  | getReadyTask sb =>
    cases hpop : s.getReadyTask sb with
    | mk s' r =>
      simp only [Scheduler.step, hpop]
      cases r with
      | none =>
        obtain ⟨rfl, -⟩ := s.getReadyTask_none hpop
        refine h.congr (fun t => ?_) (fun t => ?_) <;>
          simp [Handed, Outstanding, Event.Hands, Event.Retries, Event.Reports, Op.reported]
      | some t =>
        refine (h.pop hpop).2.congr (fun u => ?_) (fun u => ?_) <;>
          simp [Handed, Outstanding, Event.Hands, Event.Retries, Event.Reports, Op.reported,
            eq_comm]
  | markTaskStarted t agent =>
    refine (h.bookkeeping (s.running.insert t agent) s.results).congr (fun t => ?_) (fun t => ?_) <;>
      simp [Handed, Outstanding, Scheduler.step, Event.Hands, Event.Retries, Event.Reports,
        Op.reported]
  | handleTaskCompletion result =>
    have hO : Outstanding τ result.taskId := hop _ rfl
    refine (h.report hu hO).congr (fun u => ?_) (fun u => ?_) <;>
      simp [Handed, Outstanding, Scheduler.step, Event.Hands, Event.Retries, Event.Reports,
        Op.reported, eq_comm]
  | handleTaskFailure t error =>
    have hO : Outstanding τ t := hop _ rfl
    have hb := h.bookkeeping (s.running.erase t) s.results
    refine (hb.fail hu hO error).congr (fun u => ?_) (fun u => ?_) <;>
      simp [Handed, Outstanding, Scheduler.step, Event.Hands, Event.Retries, Event.Reports,
        Op.reported, eq_comm]
  | retryTask t =>
    by_cases hf : t ∈ s.failed
    · obtain ⟨hret, hinv⟩ := h.retry hu hf
      refine hinv.congr (fun u => ?_) (fun u => ?_) <;>
        simp [Handed, Outstanding, Scheduler.step, Event.Hands, Event.Retries, Event.Reports,
          Op.reported, hret, eq_comm]
    · have hret : s.retryTask t = (s, false) := if_neg hf
      simp only [Scheduler.step, hret]
      refine h.congr (fun u => ?_) (fun u => ?_) <;>
        simp [Handed, Outstanding, Event.Hands, Event.Retries, Event.Reports, Op.reported]

end Inv

theorem Run.inv {g : TaskGraph} (hu : g.UniqueIds) {hints : HashMap TaskId SandboxName} {τ : Trace}
    {s : Scheduler} (h : Run (new g hints) τ s) :
    Inv g hints (Handed τ) (Outstanding τ) s := by
  induction h with
  | start => exact Inv.init hu hints
  | next op _ hop ih => exact ih.step hu op hop

/-- **A task is handed out only with all its dependencies completed, and not a
second time before it is retried.** -/
theorem handed_out_when_ready {g : TaskGraph} (hu : g.UniqueIds)
    (hints : HashMap TaskId SandboxName) {τ : Trace} {s : Scheduler} (h : Run (new g hints) τ s)
    (sb : SandboxName) (t : TaskId) (hpop : (s.getReadyTask sb).2 = some t) :
    (∃ task ∈ g.tasks, task.id = t ∧ ∀ d ∈ task.deps, d ∈ s.completed) ∧
      ∀ later earlier e, τ = later ++ e :: earlier → e.Hands t → ∃ e' ∈ later, e'.Retries t := by
  obtain ⟨⟨hH, -, task, htask, hid, hz⟩, -⟩ := (h.inv hu).pop (Prod.ext rfl hpop)
  exact ⟨⟨task, htask, hid, unsatisfied_eq_zero.mp hz⟩,
    fun later earlier e hτ he => exists_retry_of_not_handed τ hH later earlier e hτ he⟩

/-- `b` lists `a` as a dependency. -/
def chainPlan : TaskGraph := ⟨[⟨"a", "schema", [], none⟩, ⟨"b", "queries", ["a"], none⟩]⟩

/-- `a` was handed out and completed. -/
def chainHalfway : Scheduler :=
  ((new chainPlan ∅).getReadyTask "default").1.handleTaskCompletion ⟨"a", true, none, none⟩

theorem handed_out_when_ready_chain :
    (chainHalfway.getReadyTask "default").2 = some "b" ∧
      ∃ task ∈ chainPlan.tasks, task.id = "b" ∧ ∀ d ∈ task.deps, d ∈ chainHalfway.completed := by
  have hrun : Run (new chainPlan ∅)
      [⟨.handleTaskCompletion ⟨"a", true, none, none⟩, .unit⟩,
        ⟨.getReadyTask "default", .ready (some "a")⟩] chainHalfway :=
    .next (.handleTaskCompletion ⟨"a", true, none, none⟩)
      (.next (.getReadyTask "default") .start nofun)
      (fun t ht => .inl (congrArg Ret.ready ht))
  have hpop : (chainHalfway.getReadyTask "default").2 = some "b" := by decide
  exact ⟨hpop, (handed_out_when_ready (by decide) ∅ hrun "default" "b" hpop).1⟩

end Mowis.Scheduling
