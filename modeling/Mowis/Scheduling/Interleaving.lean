import Mowis.Scheduling.LockSections

/-!
# `is_complete` while other workers report

One call of `is_complete` runs beside any number of calls of
`handle_task_completion`, in any order of their lock sections.  The query reads
the queues first and the counters afterwards.  A dependent that is unlocked in
between is counted in neither: at the first reading it is not queued yet, at the
second its counter is zero already.
-/

namespace Mowis.Scheduling

open Mowis.Lib Scheduler

/-- The scheduler, the call reporting each task, and the observed query. -/
structure Config where
  scheduler : Scheduler
  calls : TaskId → Call
  query : Query

/-- Whose section is executed next. -/
inductive Turn where
  | worker (t : TaskId)
  | query
  deriving DecidableEq, Repr

def Config.step (c : Config) : Turn → Option Config
  | .worker t =>
    if c.calls t = .idle then none
    else
      let e := (c.calls t).section t c.scheduler
      some { c with scheduler := e.1, calls := Function.update c.calls t e.2 }
  | .query =>
    match c.query with
    | .returned _ => none
    | q => some { c with query := q.section c.scheduler }

namespace Scheduler

variable (s : Scheduler)

/-- `t` is still to be dispatched: it is queued, or it is not resolved and has
dependencies left. -/
def Remains (t : TaskId) : Prop :=
  (∃ sb, t ∈ s.queue sb) ∨ (¬ s.Resolved t ∧ ∃ c, s.depCounter.lookup t = some c ∧ c ≠ 0)

theorem nothing_remains_iff :
    (∀ t, ¬ s.Remains t) ↔ (∀ sb, s.queue sb = []) ∧ s.countersClear = true := by
  rw [countersClear_iff]
  constructor
  · intro h
    refine ⟨fun sb => List.eq_nil_iff_forall_not_mem.mpr fun t ht => h t (.inl ⟨sb, ht⟩), ?_⟩
    intro t c hl hc
    by_contra hres
    exact h t (.inr ⟨hres, c, hl, hc⟩)
  · intro h t hrem
    rcases hrem with ⟨sb, hq⟩ | ⟨hres, c, hl, hc⟩
    · rw [h.1 sb] at hq
      cases hq
    · exact hres (h.2 t c hl hc)

end Scheduler

/-- No dependent becomes ready between the two readings of the query. -/
def Quiet (past : List (Config × Turn)) : Prop :=
  ∀ e ∈ past, e.1.query = .queuesRead → ∀ t, e.2 = .worker t → e.1.calls t = .unlock →
    ∀ u, ¬ e.1.scheduler.Readies t u

theorem queue_section (t : TaskId) (s : Scheduler) (call : Call)
    (hquiet : call = .unlock → ∀ u, ¬ s.Readies t u) (h : ∀ sb, s.queue sb = []) :
    ∀ sb, (call.section t s).1.queue sb = [] := by
  intro sb
  cases call with
  | unlock =>
    refine List.eq_nil_iff_forall_not_mem.mpr fun u hu => ?_
    rcases (s.mem_queue_unlockDependents t u sb).mp hu with hq | hq
    · rw [h sb] at hq
      cases hq
    · exact hquiet rfl u hq.2
  | nextToSkip toSkip =>
    cases toSkip with
    | nil => exact h sb
    | cons u rest => exact h sb
  | dropQueued u rest =>
    show HashMap.bucket (HashMap.mapValues (fun q => q.filter (fun id => decide (id ≠ u)))
      s.readyQueues) sb = []
    rw [HashMap.bucket_mapValues (fun q => q.filter (fun id => decide (id ≠ u))) rfl]
    show List.filter _ (s.queue sb) = []
    rw [h sb]
    rfl
  | idle => exact h sb
  | removeRunning r => exact h sb
  | storeResult r => exact h sb
  | markFailed error => exact h sb
  | markCompleted => exact h sb
  | decideSkip u rest => exact h sb
  | insertSkipped u rest => exact h sb

theorem Config.step_worker {c c' : Config} {t : TaskId} (h : c.step (.worker t) = some c') :
    c.calls t ≠ .idle ∧ c'.query = c.query ∧
      c'.scheduler = ((c.calls t).section t c.scheduler).1 ∧
      c'.calls = Function.update c.calls t ((c.calls t).section t c.scheduler).2 := by
  rw [Config.step] at h
  split at h
  · cases h
  · rename_i hbusy
    obtain rfl := Option.some.inj h
    exact ⟨hbusy, rfl, rfl, rfl⟩

theorem Config.step_query {c c' : Config} (h : c.step .query = some c') :
    (∀ b, c.query ≠ .returned b) ∧ c' = { c with query := c.query.section c.scheduler } := by
  rw [Config.step] at h
  split at h
  · cases h
  · rename_i hrun
    exact ⟨hrun, (Option.some.inj h).symm⟩

variable {init c : Config} {past : List (Config × Turn)}

theorem queues_empty_of_quiet (h : Execution Config.step init past c) (hstart : init.query = .start)
    (hquiet : Quiet past) (hq : c.query = .queuesRead) : ∀ sb, c.scheduler.queue sb = [] := by
  induction h with
  | start =>
    rw [hstart] at hq
    cases hq
  | @next past c c' a hrest hs ih =>
    have hquiet' : Quiet past := fun e he => hquiet e (List.mem_cons_of_mem _ he)
    cases a with
    | worker t =>
      obtain ⟨-, hquery, hsched, -⟩ := Config.step_worker hs
      rw [hquery] at hq
      rw [hsched]
      exact queue_section t c.scheduler (c.calls t)
        (fun hu => hquiet _ List.mem_cons_self hq t rfl hu) (ih hquiet' hq)
    | query =>
      obtain ⟨hrun, rfl⟩ := Config.step_query hs
      show ∀ sb, c.scheduler.queue sb = []
      change c.query.section c.scheduler = .queuesRead at hq
      cases hc : c.query with
      | start =>
        rw [hc, Query.section] at hq
        split at hq
        · cases hq
        · exact c.scheduler.readyCount_eq_zero.mp (by omega)
      | queuesRead =>
        rw [hc] at hq
        cases hq
      | returned b => exact absurd hc (hrun b)

/-- An answer `true` was given at a moment at which the counters were clear; if nothing
became ready since the first reading, the queues were empty as well. -/
theorem truthful_of_quiet (h : Execution Config.step init past c) (hstart : init.query = .start)
    (hquiet : Quiet past) (hret : c.query = .returned true) :
    ∃ e ∈ past, e.1.query = .queuesRead ∧ ∀ t, ¬ e.1.scheduler.Remains t := by
  induction h with
  | start =>
    rw [hstart] at hret
    cases hret
  | @next past c c' a hrest hs ih =>
    have hquiet' : Quiet past := fun e he => hquiet e (List.mem_cons_of_mem _ he)
    cases a with
    | worker t =>
      obtain ⟨-, hquery, -, -⟩ := Config.step_worker hs
      rw [hquery] at hret
      obtain ⟨e, he, hmoment⟩ := ih hquiet' hret
      exact ⟨e, List.mem_cons_of_mem _ he, hmoment⟩
    | query =>
      obtain ⟨hrun, rfl⟩ := Config.step_query hs
      change c.query.section c.scheduler = .returned true at hret
      cases hc : c.query with
      | start =>
        rw [hc, Query.section] at hret
        split at hret <;> cases hret
      | queuesRead =>
        rw [hc] at hret
        have hclear : c.scheduler.countersClear = true := Query.returned.inj hret
        exact ⟨_, List.mem_cons_self, hc, c.scheduler.nothing_remains_iff.mpr
          ⟨queues_empty_of_quiet hrest hstart hquiet' hc, hclear⟩⟩
      | returned b => exact absurd hc (hrun b)

/-! ### The invariant in the middle of the calls -/

/-- The listed dependencies whose dependents still have to be unlocked. -/
def unmet (s : Scheduler) (calls : TaskId → Call) (task : Task) : ℕ :=
  (task.deps.filter (fun d => decide (d ∉ s.completed ∨ calls d = .unlock))).length

theorem unmet_eq_zero {s : Scheduler} {calls : TaskId → Call} {task : Task} :
    unmet s calls task = 0 ↔ ∀ d ∈ task.deps, d ∈ s.completed ∧ calls d ≠ .unlock := by
  rw [unmet, List.length_eq_zero_iff, List.filter_eq_nil_iff]
  simp

theorem unmet_congr {s s' : Scheduler} {calls calls' : TaskId → Call}
    (h : ∀ d, (d ∉ s'.completed ∨ calls' d = .unlock) ↔ (d ∉ s.completed ∨ calls d = .unlock))
    (task : Task) : unmet s' calls' task = unmet s calls task := by
  rw [unmet, unmet, List.filter_congr fun d _ => decide_eq_decide.mpr (h d)]

theorem unmet_unlock {s s' : Scheduler} {calls : TaskId → Call} {t : TaskId}
    (hs : s'.completed = s.completed) (ht : t ∈ s.completed) (hcall : calls t = .unlock)
    (task : Task) :
    unmet s' (Function.update calls t .idle) task + task.deps.count t = unmet s calls task := by
  simp only [unmet, hs]
  induction task.deps with
  | nil => rfl
  | cons d ds ih =>
    by_cases hd : d = t
    · subst hd
      simp [ht, hcall] at ih ⊢
      omega
    · by_cases hopen : d ∉ s.completed ∨ calls d = .unlock
      · simp [hopen, hd] at ih ⊢
        omega
      · simp [hopen, hd] at ih ⊢
        omega

/-- What is known at a section of the call that reports `t`. -/
def CallOk (g : TaskGraph) (O : TaskId → Prop) (s : Scheduler) (t : TaskId) : Call → Prop
  | .idle => True
  | .removeRunning _ | .storeResult _ | .markFailed _ | .markCompleted =>
    O t ∧ t ∉ s.completed ∧ t ∉ s.failed
  | .unlock => t ∈ s.completed
  | .nextToSkip toSkip => ∀ u ∈ toSkip, u ∈ g.ids
  | .decideSkip u toSkip => u ∈ g.ids ∧ ∀ v ∈ toSkip, v ∈ g.ids
  | .insertSkipped u toSkip => (∃ d, g.DependsOn u d ∧ s.Blocked d) ∧ ∀ v ∈ toSkip, v ∈ g.ids
  | .dropQueued u toSkip => u ∈ s.skipped ∧ ∀ v ∈ toSkip, v ∈ g.ids

theorem CallOk.frame {g : TaskGraph} {O : TaskId → Prop} {s s' : Scheduler} {u : TaskId}
    {call : Call} (h : CallOk g O s u call)
    (hc : u ∈ s'.completed ↔ u ∈ s.completed) (hf : u ∈ s'.failed ↔ u ∈ s.failed)
    (hb : ∀ d, s.Blocked d → s'.Blocked d) (hs : s.skipped ⊆ s'.skipped) :
    CallOk g O s' u call := by
  cases call with
  | idle => trivial
  | removeRunning r => exact ⟨h.1, hc.not.mpr h.2.1, hf.not.mpr h.2.2⟩
  | storeResult r => exact ⟨h.1, hc.not.mpr h.2.1, hf.not.mpr h.2.2⟩
  | markFailed error => exact ⟨h.1, hc.not.mpr h.2.1, hf.not.mpr h.2.2⟩
  | markCompleted => exact ⟨h.1, hc.not.mpr h.2.1, hf.not.mpr h.2.2⟩
  | unlock => exact hc.mpr h
  | nextToSkip toSkip => exact h
  | decideSkip v toSkip => exact h
  | insertSkipped v toSkip =>
    obtain ⟨⟨d, hd, hbad⟩, hrest⟩ := h
    exact ⟨⟨d, hd, hb d hbad⟩, hrest⟩
  | dropQueued v toSkip => exact ⟨hs h.1, h.2⟩

structure Coherent (g : TaskGraph) (hints : HashMap TaskId SandboxName) (H O : TaskId → Prop)
    (s : Scheduler) (calls : TaskId → Call) : Prop where
  static : Static g hints s
  counters : ∀ t, s.depCounter.lookup t = none ↔ t ∉ g.ids
  counter : ∀ task ∈ g.tasks, task.id ∉ s.skipped →
    s.depCounter.lookup task.id = some (unmet s calls task)
  queued : ∀ task ∈ g.tasks, ¬ H task.id → task.id ∉ s.skipped → unmet s calls task = 0 →
    task.id ∈ s.queue (s.sandboxOf task.id)
  ready : ∀ sb t, t ∈ s.queue sb →
    ¬ H t ∧ t ∉ s.skipped ∧ ∃ task ∈ g.tasks, task.id = t ∧ unmet s calls task = 0
  handed : ∀ t, H t →
    t ∉ s.skipped ∧ ∃ task ∈ g.tasks, task.id = t ∧ unmet s calls task = 0
  status : ∀ t, H t ↔ O t ∨ t ∈ s.completed ∨ t ∈ s.failed
  disjoint : ∀ t, t ∈ s.completed → t ∉ s.failed
  call : ∀ t, CallOk g O s t (calls t)

def Fresh (O : TaskId → Prop) (calls : TaskId → Call) : Prop :=
  ∀ t, calls t = .idle ∨ (O t ∧ ∃ r, calls t = .removeRunning r)

namespace Coherent

variable {g : TaskGraph} {hints : HashMap TaskId SandboxName} {H O : TaskId → Prop}
  {s s' : Scheduler} {calls : TaskId → Call} {t : TaskId}

theorem ofInv (hu : g.UniqueIds) (h : Inv g hints H O s) (hzero : ∀ t, H t → s.depCounter.lookup t = some 0)
    (hfresh : Fresh O calls) : Coherent g hints H O s calls := by
  have hno : ∀ d, calls d ≠ .unlock := by
    intro d hd
    rcases hfresh d with hi | ⟨-, r, hr⟩
    · rw [hi] at hd
      cases hd
    · rw [hr] at hd
      cases hd
  have hunmet : ∀ task, unmet s calls task = s.unsatisfied task := by
    intro task
    rw [unmet, unsatisfied, List.filter_congr fun d _ => decide_eq_decide.mpr
      (or_iff_left (hno d))]
  have hready : ∀ sb t, t ∈ s.queue sb → sb = s.sandboxOf t ∧ ReadyTo g H s t := by
    intro sb t ht
    by_contra hnr
    exact List.count_eq_zero.mp (h.unqueued sb t hnr) ht
  refine ⟨h.static, h.counters, fun task htask hsk => ?_, fun task htask hH hsk hz => ?_,
    fun sb t ht => ?_, fun t ht => ?_, h.status, h.disjoint, fun t => ?_⟩
  · rw [hunmet]
    by_cases hH : H task.id
    · obtain ⟨-, task', htask', hid, hz⟩ := h.handed _ hH
      obtain rfl := Inv.eq_of_id_eq hu htask' htask hid
      rw [hzero _ hH, hz]
    · exact h.counter task htask hH hsk
  · rw [hunmet] at hz
    have hone := h.queued task.id ⟨hH, hsk, task, htask, rfl, hz⟩
    exact List.count_pos_iff.mp (by omega)
  · obtain ⟨-, hH, hsk, task, htask, hid, hz⟩ := hready sb t ht
    exact ⟨hH, hsk, task, htask, hid, (hunmet task).trans hz⟩
  · obtain ⟨hsk, task, htask, hid, hz⟩ := h.handed t ht
    exact ⟨hsk, task, htask, hid, (hunmet task).trans hz⟩
  · rcases hfresh t with hi | ⟨hO, r, hr⟩
    · rw [hi]
      trivial
    · rw [hr]
      exact ⟨hO, h.outstanding t hO⟩

theorem lookup_task (hu : g.UniqueIds) (h : Coherent g hints H O s calls) {task : Task}
    (ht : task ∈ g.tasks) : s.taskGraph.lookup task.id = some task := by
  rw [h.static.taskGraph]
  exact lookup_of_mem hu ht

theorem free_of_completed (h : Coherent g hints H O s calls) {d : TaskId}
    (hd : d ∈ s.completed) : ¬ s.Blocked d := by
  intro hb
  rcases hb with hf | hs
  · exact h.disjoint d hd hf
  · exact (h.handed d ((h.status d).mpr (.inr (.inl hd)))).1 hs

theorem free_of_met (hu : g.UniqueIds) (h : Coherent g hints H O s calls) {task : Task}
    (htask : task ∈ g.tasks) (hz : unmet s calls task = 0) {d : TaskId}
    (hd : g.DependsOn task.id d) : ¬ s.Blocked d := by
  obtain ⟨task', htask', hid, hdep⟩ := hd
  obtain rfl := Inv.eq_of_id_eq hu htask' htask hid
  exact h.free_of_completed (unmet_eq_zero.mp hz d hdep).1

theorem dependents_ids (h : Static g hints s) {t u : TaskId} (hu : u ∈ s.dependentsOf t) :
    u ∈ g.ids := by
  rw [dependentsOf, h.dependents] at hu
  obtain ⟨task, htask, hid, -⟩ := mem_bucket_buildDependents.mp hu
  exact List.mem_map.mpr ⟨task, htask, hid⟩

theorem of_unmet (h : Coherent g hints H O s calls) {calls' : TaskId → Call}
    (hstatic : Static g hints s') (hdc : s'.depCounter = s.depCounter)
    (hsk : s'.skipped = s.skipped) (hq : ∀ sb u, u ∈ s'.queue sb ↔ u ∈ s.queue sb)
    (hunmet : ∀ task, unmet s' calls' task = unmet s calls task)
    (hstatus : ∀ u, H u ↔ O u ∨ u ∈ s'.completed ∨ u ∈ s'.failed)
    (hdisjoint : ∀ u, u ∈ s'.completed → u ∉ s'.failed)
    (hcalls : ∀ u, CallOk g O s' u (calls' u)) : Coherent g hints H O s' calls' := by
  have hsand : ∀ u, s'.sandboxOf u = s.sandboxOf u := by
    intro u
    rw [sandboxOf, sandboxOf, hstatic.sandboxHints, h.static.sandboxHints]
  refine ⟨hstatic, fun u => ?_, fun task htask hs => ?_, fun task htask hH hs hz => ?_,
    fun sb u hu => ?_, fun u hu => ?_, hstatus, hdisjoint, hcalls⟩
  · rw [hdc]
    exact h.counters u
  · rw [hdc, hunmet]
    exact h.counter task htask (hsk ▸ hs)
  · rw [hq, hsand]
    exact h.queued task htask hH (hsk ▸ hs) ((hunmet task).symm.trans hz)
  · obtain ⟨hH, hs, task, htask, hid, hz⟩ := h.ready sb u ((hq sb u).mp hu)
    exact ⟨hH, hsk ▸ hs, task, htask, hid, (hunmet task).trans hz⟩
  · obtain ⟨hs, task, htask, hid, hz⟩ := h.handed u hu
    exact ⟨hsk ▸ hs, task, htask, hid, (hunmet task).trans hz⟩

theorem quiet (h : Coherent g hints H O s calls) {call' : Call} (hstatic : Static g hints s')
    (hdc : s'.depCounter = s.depCounter) (hc : s'.completed = s.completed)
    (hf : s'.failed = s.failed) (hsk : s'.skipped = s.skipped)
    (hq : ∀ sb u, u ∈ s'.queue sb ↔ u ∈ s.queue sb) (hnu : calls t ≠ .unlock)
    (hnu' : call' ≠ .unlock) (hcall : CallOk g O s t call') :
    Coherent g hints H O s' (Function.update calls t call') := by
  have hunmet : ∀ task, unmet s' (Function.update calls t call') task = unmet s calls task := by
    refine unmet_congr fun d => ?_
    rw [hc]
    by_cases hd : d = t
    · subst hd
      simp [hnu, hnu']
    · simp [hd]
  have hblocked : ∀ d, s'.Blocked d ↔ s.Blocked d := fun d => by rw [Blocked, Blocked, hf, hsk]
  have hkeep : ∀ u call, CallOk g O s u call → CallOk g O s' u call := by
    intro u call hok
    exact CallOk.frame hok (by rw [hc]) (by rw [hf]) (fun d => (hblocked d).mpr) (by rw [hsk])
  refine h.of_unmet hstatic hdc hsk hq hunmet (fun u => ?_) (fun u hu => ?_) fun u => ?_
  · rw [hc, hf]
    exact h.status u
  · rw [hc] at hu
    rw [hf]
    exact h.disjoint u hu
  · by_cases hut : u = t
    · subst hut
      rw [Function.update_self]
      exact hkeep u call' hcall
    · rw [Function.update_of_ne hut]
      exact hkeep u _ (h.call u)

theorem markFailed (h : Coherent g hints H O s calls) {error : Option String}
    (hcall : calls t = .markFailed error) (text : String) :
    Coherent g hints H O { s with failed := s.failed.insert t text }
      (Function.update calls t (.nextToSkip (s.dependentsOf t))) := by
  obtain ⟨hO, hnc, hnf⟩ : O t ∧ t ∉ s.completed ∧ t ∉ s.failed := by
    have hok := h.call t
    rwa [hcall] at hok
  have hunmet : ∀ task, unmet { s with failed := s.failed.insert t text }
      (Function.update calls t (.nextToSkip (s.dependentsOf t))) task = unmet s calls task := by
    refine unmet_congr fun d => ?_
    by_cases hd : d = t
    · subst hd
      simp [hcall]
    · simp [hd]
  have hfailed : ∀ u, u ∈ s.failed.insert t text ↔ u = t ∨ u ∈ s.failed := fun u =>
    AList.mem_insert _
  refine h.of_unmet ⟨h.static.1, h.static.2, h.static.3, h.static.4⟩ rfl rfl
    (fun _ _ => Iff.rfl) hunmet (fun u => ?_) (fun u hu => ?_) fun u => ?_
  · show H u ↔ O u ∨ u ∈ s.completed ∨ u ∈ s.failed.insert t text
    rw [h.status u, hfailed]
    by_cases hut : u = t
    · subst hut
      simp [hO]
    · simp [hut]
  · show u ∉ s.failed.insert t text
    rw [hfailed, not_or]
    refine ⟨?_, h.disjoint u hu⟩
    rintro rfl
    exact hnc hu
  · by_cases hut : u = t
    · subst hut
      rw [Function.update_self]
      exact fun v hv => dependents_ids h.static hv
    · rw [Function.update_of_ne hut]
      refine CallOk.frame (h.call u) Iff.rfl ?_ (fun d hb => ?_) (Finset.Subset.refl _)
      · rw [hfailed, or_iff_right hut]
      · exact hb.imp_left fun hd => (hfailed d).mpr (.inr hd)

theorem markCompleted (h : Coherent g hints H O s calls) (hcall : calls t = .markCompleted) :
    Coherent g hints H O { s with completed := insert t s.completed }
      (Function.update calls t .unlock) := by
  obtain ⟨hO, hnc, hnf⟩ : O t ∧ t ∉ s.completed ∧ t ∉ s.failed := by
    have hok := h.call t
    rwa [hcall] at hok
  have hunmet : ∀ task, unmet { s with completed := insert t s.completed }
      (Function.update calls t .unlock) task = unmet s calls task := by
    refine unmet_congr fun d => ?_
    by_cases hd : d = t
    · subst hd
      simp [hnc]
    · simp [hd]
  refine h.of_unmet ⟨h.static.1, h.static.2, h.static.3, h.static.4⟩ rfl rfl
    (fun _ _ => Iff.rfl) hunmet (fun u => ?_) (fun u hu => ?_) fun u => ?_
  · show H u ↔ O u ∨ u ∈ insert t s.completed ∨ u ∈ s.failed
    rw [h.status u, Finset.mem_insert]
    by_cases hut : u = t
    · subst hut
      simp [hO]
    · simp [hut]
  · rcases Finset.mem_insert.mp hu with rfl | hu
    · exact hnf
    · exact h.disjoint u hu
  · by_cases hut : u = t
    · subst hut
      rw [Function.update_self]
      exact Finset.mem_insert_self _ _
    · rw [Function.update_of_ne hut]
      refine CallOk.frame (h.call u) ?_ Iff.rfl (fun d hb => hb) (Finset.Subset.refl _)
      simp [hut]

theorem insertSkipped (hu : g.UniqueIds) (h : Coherent g hints H O s calls) {u : TaskId}
    {toSkip : List TaskId} (hcall : calls t = .insertSkipped u toSkip) :
    Coherent g hints H O { s with skipped := insert u s.skipped }
      (Function.update calls t (.dropQueued u toSkip)) := by
  obtain ⟨⟨d, hd, hbad⟩, hrest⟩ : (∃ d, g.DependsOn u d ∧ s.Blocked d) ∧ ∀ v ∈ toSkip, v ∈ g.ids := by
    have hok := h.call t
    rwa [hcall] at hok
  have hunmet : ∀ task, unmet { s with skipped := insert u s.skipped }
      (Function.update calls t (.dropQueued u toSkip)) task = unmet s calls task := by
    refine unmet_congr fun d => ?_
    by_cases hdt : d = t
    · subst hdt
      simp [hcall]
    · simp [hdt]
  -- a task whose dependencies are met is not the one being skipped
  have hother : ∀ task ∈ g.tasks, unmet s calls task = 0 → task.id ∉ s.skipped →
      task.id ∉ insert u s.skipped := by
    intro task htask hz hs hm
    rcases Finset.mem_insert.mp hm with rfl | hm
    · exact h.free_of_met hu htask hz hd hbad
    · exact hs hm
  refine ⟨⟨h.static.1, h.static.2, h.static.3, h.static.4⟩, h.counters,
    fun task htask hs => ?_, fun task htask hH hs hz => ?_, fun sb v hv => ?_, fun v hv => ?_,
    h.status, h.disjoint, fun v => ?_⟩
  · rw [hunmet]
    exact h.counter task htask fun hm => hs (Finset.mem_insert_of_mem hm)
  · exact h.queued task htask hH (fun hm => hs (Finset.mem_insert_of_mem hm))
      ((hunmet task).symm.trans hz)
  · obtain ⟨hH, hs, task, htask, rfl, hz⟩ := h.ready sb v hv
    exact ⟨hH, hother task htask hz hs, task, htask, rfl, (hunmet task).trans hz⟩
  · obtain ⟨hs, task, htask, rfl, hz⟩ := h.handed v hv
    exact ⟨hother task htask hz hs, task, htask, rfl, (hunmet task).trans hz⟩
  · by_cases hvt : v = t
    · subst hvt
      rw [Function.update_self]
      exact ⟨Finset.mem_insert_self _ _, hrest⟩
    · rw [Function.update_of_ne hvt]
      exact CallOk.frame (h.call v) Iff.rfl Iff.rfl
        (fun d hb => hb.imp_right fun hm => Finset.mem_insert_of_mem hm) (Finset.subset_insert _ _)

theorem readies_iff (hu : g.UniqueIds) (h : Coherent g hints H O s calls) {task : Task}
    (htask : task ∈ g.tasks) (ht : t ∈ s.completed) (hcall : calls t = .unlock) :
    s.Readies t task.id ↔ ¬ s.Blocked task.id ∧ 0 < unmet s calls task ∧
      unmet s (Function.update calls t .idle) task = 0 := by
  have hcount : (s.dependentsOf t).count task.id = task.deps.count t := by
    rw [dependentsOf, h.static.dependents, count_dependents hu htask]
  have hsum : unmet s (Function.update calls t .idle) task + task.deps.count t =
      unmet s calls task := unmet_unlock rfl ht hcall task
  have hcross := crossings_of_le (unmet s calls task) (task.deps.count t) (by omega)
  constructor
  · intro hr
    obtain ⟨hb, c, hl, hpos⟩ := hr
    have hc := h.counter task htask fun hs => hb (.inr hs)
    obtain rfl := Option.some.inj (hl.symm.trans hc)
    rw [hcount, hcross] at hpos
    split at hpos
    · exact ⟨hb, by omega, by omega⟩
    · omega
  · intro hr
    obtain ⟨hb, hpos, hz⟩ := hr
    refine ⟨hb, _, h.counter task htask fun hs => hb (.inr hs), ?_⟩
    rw [hcount, hcross, if_pos (by omega)]
    omega

theorem unlock (hu : g.UniqueIds) (h : Coherent g hints H O s calls) (hcall : calls t = .unlock) :
    Coherent g hints H O (s.unlockDependents t) (Function.update calls t .idle) := by
  have ht : t ∈ s.completed := by
    have hok := h.call t
    rwa [hcall] at hok
  have hcompleted := s.completed_unlockDependents t
  have hfailed := s.failed_unlockDependents t
  have hskipped := s.skipped_unlockDependents t
  have hsum : ∀ task, unmet (s.unlockDependents t) (Function.update calls t .idle) task +
      task.deps.count t = unmet s calls task := unmet_unlock hcompleted ht hcall
  have hsame : ∀ task, unmet (s.unlockDependents t) (Function.update calls t .idle) task =
      unmet s (Function.update calls t .idle) task := by
    intro task
    exact unmet_congr (fun d => by rw [hcompleted]) task
  refine ⟨h.static.unlockDependents t, fun u => ?_, fun task htask hs => ?_,
    fun task htask hH hs hz => ?_, fun sb u hq => ?_, fun u hu' => ?_, fun u => ?_,
    fun u hu' => ?_, fun u => ?_⟩
  · by_cases hb : s.Blocked u ∨ s.depCounter.lookup u = none
    · rw [(s.unlockDependents_inert t hb).1]
      exact h.counters u
    · obtain ⟨hnb, hsome⟩ := not_or.mp hb
      obtain ⟨c, hc⟩ := Option.ne_none_iff_exists'.mp hsome
      rw [(s.unlockDependents_view t hnb hc).1, ← h.counters u, hc]
      simp
  · rw [hskipped] at hs
    have hc := h.counter task htask hs
    have hcount := Inv.count_dependentsOf hu h.static htask t
    by_cases hb : s.Blocked task.id
    · -- a failed task was handed out, so nothing it depends on is still to be unlocked
      obtain ⟨-, task', htask', hid, hz⟩ := h.handed task.id
        ((h.status _).mpr (.inr (.inr (hb.resolve_right hs))))
      obtain rfl := Inv.eq_of_id_eq hu htask' htask hid
      have := hsum task'
      rw [(s.unlockDependents_inert t (.inl hb)).1, hc]
      exact congrArg some (by omega)
    · have := hsum task
      rw [(s.unlockDependents_view t hb hc).1, hcount, iterate_fetchSub _ _ (by omega)]
      exact congrArg some (by omega)
  · rw [hskipped] at hs
    rw [sandboxOf_unlockDependents, mem_queue_unlockDependents]
    by_cases hopen : unmet s calls task = 0
    · exact .inl (h.queued task htask hH hs hopen)
    · have hnf : task.id ∉ s.failed := fun hf => hH ((h.status _).mpr (.inr (.inr hf)))
      refine .inr ⟨rfl, (h.readies_iff hu htask ht hcall).mpr ⟨not_or.mpr ⟨hnf, hs⟩, ?_, ?_⟩⟩
      · omega
      · rw [← hsame]
        exact hz
  · rw [hskipped]
    rcases (s.mem_queue_unlockDependents t u sb).mp hq with hq | ⟨-, hr⟩
    · obtain ⟨hH, hs, task, htask, hid, hz⟩ := h.ready sb u hq
      have := hsum task
      exact ⟨hH, hs, task, htask, hid, by omega⟩
    · obtain ⟨hb, c, hl, -⟩ := id hr
      have hids : u ∈ g.ids := by
        by_contra hno
        rw [(h.counters u).mpr hno] at hl
        cases hl
      obtain ⟨task, htask, rfl⟩ := List.mem_map.mp hids
      obtain ⟨-, hpos, hz⟩ := (h.readies_iff hu htask ht hcall).mp hr
      refine ⟨fun hH => ?_, fun hs => hb (.inr hs), task, htask, rfl, (hsame task).trans hz⟩
      obtain ⟨-, task', htask', hid, hz'⟩ := h.handed _ hH
      obtain rfl := Inv.eq_of_id_eq hu htask' htask hid
      omega
  · obtain ⟨hs, task, htask, hid, hz⟩ := h.handed u hu'
    have := hsum task
    rw [hskipped]
    exact ⟨hs, task, htask, hid, by omega⟩
  · rw [hcompleted, hfailed]
    exact h.status u
  · rw [hcompleted] at hu'
    rw [hfailed]
    exact h.disjoint u hu'
  · by_cases hut : u = t
    · subst hut
      rw [Function.update_self]
      trivial
    · rw [Function.update_of_ne hut]
      refine CallOk.frame (h.call u) (by rw [hcompleted]) (by rw [hfailed]) (fun d hb => ?_) ?_
      · rw [Blocked, hfailed, hskipped]
        exact hb
      · rw [hskipped]

theorem section_keeps (hu : g.UniqueIds) (h : Coherent g hints H O s calls) (t : TaskId) :
    Coherent g hints H O ((calls t).section t s).1
      (Function.update calls t ((calls t).section t s).2) := by
  have hok := h.call t
  have hstatic : ∀ s' : Scheduler, s'.taskGraph = s.taskGraph → s'.dependents = s.dependents →
      s'.sandboxHints = s.sandboxHints → s'.totalTasks = s.totalTasks → Static g hints s' :=
    fun s' h₁ h₂ h₃ h₄ => ⟨h₁.trans h.static.1, h₂.trans h.static.2, h₃.trans h.static.3,
      h₄.trans h.static.4⟩
  cases hcall : calls t with
  | idle =>
    rw [show Call.section t s .idle = (s, .idle) from rfl, ← hcall, Function.update_eq_self]
    exact h
  | removeRunning r =>
    rw [hcall] at hok
    exact h.quiet (hstatic _ rfl rfl rfl rfl) rfl rfl rfl rfl (fun _ _ => Iff.rfl)
      (by rw [hcall]; nofun) nofun hok
  | storeResult r =>
    rw [hcall] at hok
    rw [Call.section]
    split
    · exact h.quiet (hstatic _ rfl rfl rfl rfl) rfl rfl rfl rfl (fun _ _ => Iff.rfl)
        (by rw [hcall]; nofun) nofun hok
    · exact h.quiet (hstatic _ rfl rfl rfl rfl) rfl rfl rfl rfl (fun _ _ => Iff.rfl)
        (by rw [hcall]; nofun) nofun hok
  | markFailed error => exact h.markFailed hcall _
  | markCompleted => exact h.markCompleted hcall
  | unlock => exact h.unlock hu hcall
  | nextToSkip toSkip =>
    rw [hcall] at hok
    cases toSkip with
    | nil =>
      exact h.quiet h.static rfl rfl rfl rfl (fun _ _ => Iff.rfl) (by rw [hcall]; nofun) nofun
        trivial
    | cons u rest =>
      have hrest : ∀ v ∈ rest, v ∈ g.ids := fun v hv => hok v (List.mem_cons_of_mem _ hv)
      rw [Call.section]
      split
      · exact h.quiet h.static rfl rfl rfl rfl (fun _ _ => Iff.rfl) (by rw [hcall]; nofun) nofun
          hrest
      · exact h.quiet h.static rfl rfl rfl rfl (fun _ _ => Iff.rfl) (by rw [hcall]; nofun) nofun
          ⟨hok u List.mem_cons_self, hrest⟩
  | decideSkip u rest =>
    rw [hcall] at hok
    rw [Call.section]
    split
    · rename_i hskip
      obtain ⟨task, htask, rfl⟩ := List.mem_map.mp hok.1
      obtain ⟨d, hd, hbad⟩ := s.shouldSkip_cause hskip task (h.lookup_task hu htask)
      exact h.quiet h.static rfl rfl rfl rfl (fun _ _ => Iff.rfl) (by rw [hcall]; nofun) nofun
        ⟨⟨d, ⟨task, htask, rfl, hd⟩, hbad⟩, hok.2⟩
    · exact h.quiet h.static rfl rfl rfl rfl (fun _ _ => Iff.rfl) (by rw [hcall]; nofun) nofun
        hok.2
  | insertSkipped u rest => exact h.insertSkipped hu hcall
  | dropQueued u rest =>
    rw [hcall] at hok
    -- a skipped task is in no queue, so nothing is dropped
    refine h.quiet (hstatic _ rfl rfl rfl rfl) rfl rfl rfl rfl (fun sb v => ?_)
      (by rw [hcall]; nofun) nofun ?_
    · show v ∈ HashMap.bucket (HashMap.mapValues (fun q => q.filter (fun id => decide (id ≠ u)))
        s.readyQueues) sb ↔ v ∈ s.queue sb
      rw [HashMap.bucket_mapValues (fun q => q.filter (fun id => decide (id ≠ u))) rfl,
        List.mem_filter]
      refine ⟨And.left, fun hv => ⟨hv, decide_eq_true ?_⟩⟩
      rintro rfl
      exact (h.ready sb v hv).2.1 hok.1
    · intro v hv
      rcases List.mem_append.mp hv with hv | hv
      · exact hok.2 v hv
      · exact dependents_ids h.static hv

theorem remains_iff (h : Coherent g hints H O s calls) (t : TaskId) :
    s.Remains t ↔ t ∈ g.ids ∧ ¬ s.Resolved t ∧ ¬ O t := by
  constructor
  · intro hrem
    rcases hrem with ⟨sb, hq⟩ | ⟨hres, c, hl, hc⟩
    · obtain ⟨hH, hs, task, htask, hid, -⟩ := h.ready sb t hq
      refine ⟨List.mem_map.mpr ⟨task, htask, hid⟩, ?_, fun hO => hH ((h.status t).mpr (.inl hO))⟩
      intro hres
      rcases hres with hr | hr | hr
      · exact hH ((h.status t).mpr (.inr (.inl hr)))
      · exact hs hr
      · exact hH ((h.status t).mpr (.inr (.inr hr)))
    · have hids : t ∈ g.ids := by
        by_contra hno
        rw [(h.counters t).mpr hno] at hl
        cases hl
      refine ⟨hids, hres, fun hO => hc ?_⟩
      obtain ⟨hs, task, htask, rfl, hz⟩ := h.handed t ((h.status t).mpr (.inl hO))
      have hcounter := h.counter task htask hs
      rw [hl, hz] at hcounter
      exact Option.some.inj hcounter
  · intro hrem
    obtain ⟨hids, hres, hO⟩ := hrem
    obtain ⟨task, htask, rfl⟩ := List.mem_map.mp hids
    have hs : task.id ∉ s.skipped := fun hs => hres (.inr (.inl hs))
    have hH : ¬ H task.id := by
      intro hH
      rcases (h.status _).mp hH with ho | hc | hf
      · exact hO ho
      · exact hres (.inl hc)
      · exact hres (.inr (.inr hf))
    by_cases hz : unmet s calls task = 0
    · exact .inl ⟨_, h.queued task htask hH hs hz⟩
    · exact .inr ⟨hres, _, h.counter task htask hs, hz⟩

end Coherent

/-! ### Truthful answers come from quiet executions -/

theorem resolved_section (t : TaskId) (s : Scheduler) (call : Call) {u : TaskId}
    (h : s.Resolved u) : (call.section t s).1.Resolved u := by
  cases call with
  | markFailed error =>
    exact h.imp_right (Or.imp_right fun hf => (AList.mem_insert _).mpr (.inr hf))
  | markCompleted => exact h.imp_left fun hc => Finset.mem_insert_of_mem hc
  | unlock =>
    show (s.unlockDependents t).Resolved u
    rwa [Resolved, completed_unlockDependents, skipped_unlockDependents, failed_unlockDependents]
  | nextToSkip toSkip =>
    cases toSkip with
    | nil => exact h
    | cons v rest => exact h
  | insertSkipped v rest => exact h.imp_right (Or.imp_left fun hs => Finset.mem_insert_of_mem hs)
  | idle => exact h
  | removeRunning r => exact h
  | storeResult r => exact h
  | decideSkip v rest => exact h
  | dropQueued v rest => exact h

section Exact

variable {g : TaskGraph} {hints : HashMap TaskId SandboxName} {H O : TaskId → Prop}
  {c c' : Config}

theorem coherent_step (hu : g.UniqueIds) (h : Coherent g hints H O c.scheduler c.calls) {a : Turn}
    (hs : c.step a = some c') : Coherent g hints H O c'.scheduler c'.calls := by
  cases a with
  | worker t =>
    obtain ⟨-, -, hsched, hcalls⟩ := Config.step_worker hs
    rw [hsched, hcalls]
    exact h.section_keeps hu t
  | query =>
    obtain ⟨-, rfl⟩ := Config.step_query hs
    exact h

theorem queued_step (h : Coherent g hints H O c.scheduler c.calls) {a : Turn}
    (hs : c.step a = some c') {sb : SandboxName} {u : TaskId} (hq : u ∈ c.scheduler.queue sb) :
    u ∈ c'.scheduler.queue sb := by
  cases a with
  | query =>
    obtain ⟨-, rfl⟩ := Config.step_query hs
    exact hq
  | worker t =>
    obtain ⟨-, -, hsched, -⟩ := Config.step_worker hs
    have hok := h.call t
    rw [hsched]
    cases hcall : c.calls t with
    | unlock => exact (c.scheduler.mem_queue_unlockDependents t u sb).mpr (.inl hq)
    | dropQueued v rest =>
      rw [hcall] at hok
      show u ∈ HashMap.bucket (HashMap.mapValues (fun q => q.filter (fun id => decide (id ≠ v)))
        c.scheduler.readyQueues) sb
      rw [HashMap.bucket_mapValues (fun q => q.filter (fun id => decide (id ≠ v))) rfl,
        List.mem_filter]
      refine ⟨hq, decide_eq_true ?_⟩
      rintro rfl
      exact (h.ready sb u hq).2.1 hok.1
    | nextToSkip toSkip =>
      cases toSkip with
      | nil => exact hq
      | cons v rest => exact hq
    | idle => exact hq
    | removeRunning r => exact hq
    | storeResult r => exact hq
    | markFailed error => exact hq
    | markCompleted => exact hq
    | decideSkip v rest => exact hq
    | insertSkipped v rest => exact hq

theorem nothing_remains_step (hu : g.UniqueIds) (h : Coherent g hints H O c.scheduler c.calls)
    {a : Turn} (hs : c.step a = some c') (hnone : ∀ t, ¬ c.scheduler.Remains t) :
    ∀ t, ¬ c'.scheduler.Remains t := by
  intro t hrem
  obtain ⟨hids, hres, hO⟩ := ((coherent_step hu h hs).remains_iff t).mp hrem
  refine hnone t ((h.remains_iff t).mpr ⟨hids, fun hr => hres ?_, hO⟩)
  cases a with
  | worker t' =>
    obtain ⟨-, -, hsched, -⟩ := Config.step_worker hs
    rw [hsched]
    exact resolved_section t' c.scheduler (c.calls t') hr
  | query =>
    obtain ⟨-, rfl⟩ := Config.step_query hs
    exact hr

theorem quiet_of_truthful (hu : g.UniqueIds) (h : Execution Config.step init past c)
    (hinit : Coherent g hints H O init.scheduler init.calls)
    (htrue : ∃ e ∈ past, e.1.query = .queuesRead ∧ ∀ t, ¬ e.1.scheduler.Remains t) :
    Quiet past := by
  obtain ⟨m, hm, -, hnone⟩ := htrue
  -- nothing remains at the end, so nothing can have been queued on the way
  have hend : ∀ t, ¬ c.scheduler.Remains t :=
    h.stable (I := fun c => Coherent g hints H O c.scheduler c.calls)
      (Q := fun c => ∀ t, ¬ c.scheduler.Remains t) hinit
      (fun c a c' hI hs => coherent_step hu hI hs)
      (fun c a c' hI hQ hs => nothing_remains_step hu hI hs hQ) m hm hnone
  intro e he _ t hturn hcall u hr
  have hqueued : ∃ sb, u ∈ c.scheduler.queue sb :=
    h.leads (I := fun c => Coherent g hints H O c.scheduler c.calls)
      (M := fun c a => a = .worker t ∧ c.calls t = .unlock ∧ c.scheduler.Readies t u)
      (Q := fun c => ∃ sb, u ∈ c.scheduler.queue sb) hinit
      (fun c a c' hI hs => coherent_step hu hI hs)
      (fun c a c' hI hM hs => by
        obtain ⟨rfl, hcall, hr⟩ := hM
        obtain ⟨-, -, hsched, -⟩ := Config.step_worker hs
        rw [hsched, hcall]
        exact ⟨_, (c.scheduler.mem_queue_unlockDependents t u _).mpr (.inr ⟨rfl, hr⟩)⟩)
      (fun c a c' hI hQ hs => by
        obtain ⟨sb, hq⟩ := hQ
        exact ⟨sb, queued_step hI hs hq⟩)
      e he ⟨hturn, hcall, hr⟩
  exact hend u (.inl hqueued)

end Exact

/-- **An answer `true` is truthful when no dependent becomes ready between the two
readings of `is_complete`**, whatever the scheduler and the calls beside it; and for
plans with unique ids, reached by any run, in no other case. -/
theorem is_complete_truthful (h : Execution Config.step init past c) (hstart : init.query = .start)
    (hret : c.query = .returned true) :
    (Quiet past → ∃ e ∈ past, e.1.query = .queuesRead ∧ ∀ t, ¬ e.1.scheduler.Remains t) ∧
    ∀ (g : TaskGraph) (hints : HashMap TaskId SandboxName) (τ : Trace), g.UniqueIds →
      Run (new g hints) τ init.scheduler → Fresh (Outstanding τ) init.calls →
      (∃ e ∈ past, e.1.query = .queuesRead ∧ ∀ t, ¬ e.1.scheduler.Remains t) → Quiet past := by
  refine ⟨fun hquiet => truthful_of_quiet h hstart hquiet hret, ?_⟩
  intro g hints τ hu hrun hfresh htrue
  exact quiet_of_truthful hu h
    (Coherent.ofInv hu (hrun.inv hu) (fun t ht => counter_of_handed hu hrun ht) hfresh) htrue

theorem Config.step_of_busy {c : Config} {t : TaskId} (h : c.calls t ≠ .idle) :
    c.step (.worker t) = some { c with
      scheduler := ((c.calls t).section t c.scheduler).1
      calls := Function.update c.calls t ((c.calls t).section t c.scheduler).2 } := if_neg h

/-- Both tasks of the chain are out of the queues: `a` is completed, `b` is out. -/
def chainLast : Config := ⟨(chainHalfway.getReadyTask "default").1, fun _ => .idle, .start⟩

theorem is_complete_truthful_chain :
    ∃ e ∈ [({ chainLast with query := .queuesRead }, Turn.query), (chainLast, Turn.query)],
      e.1.query = .queuesRead ∧ ∀ t, ¬ e.1.scheduler.Remains t := by
  have hempty : chainLast.scheduler.readyCount = 0 := by decide
  have hclear : chainLast.scheduler.countersClear = true := by decide
  have hfirst : chainLast.step .query = some { chainLast with query := .queuesRead } := by
    show some { chainLast with query := Query.section chainLast.scheduler .start } = _
    rw [Query.section, if_neg (by omega)]
  have hsecond : Config.step { chainLast with query := .queuesRead } .query =
      some { chainLast with query := .returned true } := by
    show some { chainLast with query := .returned chainLast.scheduler.countersClear } = _
    rw [hclear]
  have hexec := (Execution.start.next hfirst).next hsecond
  refine (is_complete_truthful hexec rfl rfl).1 fun e he _ t hturn => ?_
  rcases List.mem_cons.mp he with rfl | he
  · cases hturn
  · rcases List.mem_cons.mp he with rfl | he
    · cases hturn
    · cases he

/-- `a` of the chain is out, and its worker is about to report success. -/
def raceStart : Config where
  scheduler := ((new chainPlan ∅).getReadyTask "default").1
  calls := fun t => if t = "a" then .removeRunning ⟨true, none, none⟩ else .idle
  query := .start

/-- The query reads the queues, the whole report of `a` happens, and then the query reads
the counters: it answers `true`, and `b` was there to be dispatched all the time. -/
theorem complete_while_task_remains :
    ∃ past c, Execution Config.step raceStart past c ∧ c.query = .returned true ∧
      Run (new chainPlan ∅) [⟨.getReadyTask "default", .ready (some "a")⟩] raceStart.scheduler ∧
      Fresh (Outstanding [⟨.getReadyTask "default", .ready (some "a")⟩]) raceStart.calls ∧
      c.scheduler.Remains "b" ∧ ∀ e ∈ past, e.1.scheduler.Remains "b" := by
  have hrun : Run (new chainPlan ∅) [⟨.getReadyTask "default", .ready (some "a")⟩]
      raceStart.scheduler := .next (.getReadyTask "default") .start nofun
  have hfresh : Fresh (Outstanding [⟨.getReadyTask "default", .ready (some "a")⟩])
      raceStart.calls := by
    intro t
    by_cases ht : t = "a"
    · subst ht
      exact .inr ⟨.inl rfl, _, rfl⟩
    · exact .inl (if_neg ht)
  have hempty : raceStart.scheduler.readyCount = 0 := by decide
  have hquery : raceStart.step .query = some { raceStart with query := .queuesRead } := by
    show some { raceStart with query := Query.section raceStart.scheduler .start } = _
    rw [Query.section, if_neg (by omega)]
  have h₁ := Execution.start.next hquery
  have h₂ := h₁.next (Config.step_of_busy (t := "a") (by decide))
  have h₃ := h₂.next (Config.step_of_busy (t := "a") (by decide))
  have h₄ := h₃.next (Config.step_of_busy (t := "a") (by decide))
  have h₅ := h₄.next (Config.step_of_busy (t := "a") (by decide))
  refine ⟨_, _, h₅.next (a := .query) rfl, ?_, hrun, hfresh, ?_, ?_⟩
  · decide
  · exact .inl ⟨"default", by decide⟩
  · have hwaits : ∀ s : Scheduler, ¬ s.Resolved "b" ∧ s.depCounter.lookup "b" = some 1 →
        s.Remains "b" := fun s hs => .inr ⟨hs.1, 1, hs.2, one_ne_zero⟩
    simp only [List.mem_cons, List.not_mem_nil, or_false, forall_eq_or_imp, forall_eq]
    refine ⟨.inl ⟨"default", by decide⟩, hwaits _ (by decide),
      hwaits _ (by decide), hwaits _ (by decide), hwaits _ (by decide),
      hwaits _ (by decide)⟩

end Mowis.Scheduling
