import Mowis.Pool.Conservation
import Mowis.Scheduling.Accounting

/-!
# The worker pools can finish

For a well-formed plan every careful run of the pool is a run of the scheduler in
which the outstanding tasks are the held ones (`Sound`), so the scheduler
invariant holds.  From there a continuation to the exit test is built: a held
task is carried to a success; when nothing is held, some task has all its
dependencies completed, and a polling worker finds it.
-/

namespace Mowis.Pool

open Mowis.Lib Mowis.Scheduling Mowis.Scheduling.Scheduler

/-- A plan that can be carried out in the given sandboxes. -/
structure WellFormed (g : TaskGraph) (hints : HashMap TaskId SandboxName)
    (sandboxes : List SandboxName) : Prop where
  unique : g.UniqueIds
  closed : g.Closed
  acyclic : g.Acyclic
  listed : ∀ t ∈ g.ids, sandboxFor hints t ∈ sandboxes

/-- The scheduler invariant with the held tasks outstanding, no task held twice. -/
structure Sound (g : TaskGraph) (hints : HashMap TaskId SandboxName) (p : WorkerPool) : Prop where
  inv : ∃ H, Inv g hints H p.Holds p.scheduler
  once : ∀ i j t, p.held i = some t → p.held j = some t → i = j
  exited : ∀ i : ℕ, p.workers[i]? = some .exited → p.exitTest = true

namespace WorkerPool

variable {p p' : WorkerPool} {g : TaskGraph} {hints : HashMap TaskId SandboxName}

theorem holds_take {i : ℕ} {t : TaskId} (hfree : p.held i = none)
    (hheld : ∀ j, p'.held j = if j = i then some t else p.held j) (u : TaskId) :
    p'.Holds u ↔ u = t ∨ p.Holds u := by
  constructor
  · rintro ⟨j, hj⟩
    rw [hheld] at hj
    by_cases hji : j = i
    · rw [if_pos hji] at hj
      exact .inl (Option.some.inj hj).symm
    · rw [if_neg hji] at hj
      exact .inr ⟨j, hj⟩
  · rintro (rfl | ⟨j, hj⟩)
    · exact ⟨i, by rw [hheld, if_pos rfl]⟩
    · have hji : j ≠ i := by
        rintro rfl
        rw [hfree] at hj
        cases hj
      exact ⟨j, by rw [hheld, if_neg hji, hj]⟩

theorem holds_release {i : ℕ} {t : TaskId} (hi : p.held i = some t)
    (honce : ∀ j, p.held j = some t → j = i)
    (hheld : ∀ j, p'.held j = if j = i then none else p.held j) (u : TaskId) :
    p'.Holds u ↔ p.Holds u ∧ u ≠ t := by
  constructor
  · rintro ⟨j, hj⟩
    rw [hheld] at hj
    by_cases hji : j = i
    · rw [if_pos hji] at hj
      cases hj
    · rw [if_neg hji] at hj
      refine ⟨⟨j, hj⟩, ?_⟩
      rintro rfl
      exact hji (honce j hj)
  · rintro ⟨⟨j, hj⟩, hne⟩
    have hji : j ≠ i := by
      rintro rfl
      rw [hi] at hj
      exact hne (Option.some.inj hj).symm
    exact ⟨j, by rw [hheld, if_neg hji, hj]⟩

end WorkerPool

open WorkerPool

namespace Sound

variable {p p' : WorkerPool} {g : TaskGraph} {hints : HashMap TaskId SandboxName}

theorem start (hu : g.UniqueIds) (hints : HashMap TaskId SandboxName) (mode : PoolMode)
    (maxAgents : ℕ) (sandboxes : List SandboxName) :
    Sound g hints (WorkerPool.start mode maxAgents g hints sandboxes) := by
  refine ⟨⟨_, (Inv.init hu hints).congr (fun _ => Iff.rfl) fun t => ?_⟩, fun i j t hi _ => ?_,
    fun i hi => ?_⟩
  · refine iff_false_intro ?_
    rintro ⟨i, hi⟩
    rw [held_start] at hi
    cases hi
  · rw [held_start] at hi
    cases hi
  · have hw : (WorkerPool.start mode maxAgents g hints sandboxes).workers =
        List.replicate (mode.workerCount maxAgents) (.polling sandboxes false) := rfl
    rw [hw] at hi
    cases (List.eq_of_mem_replicate (List.mem_of_getElem? hi))

theorem step (hu : g.UniqueIds) (h : Sound g hints p) {i : ℕ} {label : Label}
    (hk : p.Keeps i label) (hs : p.step i label = some p') : Sound g hints p' := by
  obtain ⟨w, w', hw, hset, -, hexit, hm⟩ := keeps_move hk hs
  have hheld := held_set hw hset
  have hexited : ∀ j : ℕ, p'.workers[j]? = some .exited → p'.exitTest = true := by
    intro j hj
    refine hm.grows.exitTest ?_
    rw [hset, List.getElem?_set] at hj
    by_cases hji : i = j
    · rw [if_pos hji] at hj
      split at hj
      · exact hexit (Option.some.inj hj)
      · cases hj
    · rw [if_neg hji] at hj
      exact h.exited j hj
  obtain ⟨H, hinv⟩ := h.inv
  suffices hmain : (∃ H', Inv g hints H' p'.Holds p'.scheduler) ∧
      ∀ a b t, p'.held a = some t → p'.held b = some t → a = b from
    ⟨hmain.1, hmain.2, hexited⟩
  generalize p'.scheduler = s' at hm ⊢
  cases hm with
  | @pop _ _ t _ hfree hpop htake =>
    rw [← held_self hw] at hfree
    simp only [htake] at hheld
    obtain ⟨⟨hH, -⟩, hnext⟩ := hinv.pop hpop
    refine ⟨⟨_, hnext.congr (fun _ => Iff.rfl) (holds_take hfree hheld)⟩, fun a b u ha hb => ?_⟩
    -- `t` was not held before, since it was ready
    have hnew : ∀ j, p.held j ≠ some t := fun j hj => hH ((hinv.status t).mpr (.inl ⟨j, hj⟩))
    rw [hheld] at ha hb
    split at ha <;> split at hb
    · simp_all
    · obtain rfl := Option.some.inj ha
      exact absurd hb (hnew b)
    · obtain rfl := Option.some.inj hb
      exact absurd ha (hnew a)
    · exact h.once a b u ha hb
  | quiet running htask =>
    have hsame : ∀ j, p'.held j = p.held j := by
      intro j
      rw [hheld, htask, ← held_self hw]
      split
      · rename_i hji
        rw [hji]
      · rfl
    have hholds : ∀ u, p'.Holds u ↔ p.Holds u := fun u => by simp only [Holds, hsame]
    simp only [hsame]
    exact ⟨⟨H, (hinv.bookkeeping running p.scheduler.results).congr (fun _ => Iff.rfl) hholds⟩,
      h.once⟩
  | @report result _ hheld₁ hfree =>
    rw [← held_self hw] at hheld₁
    simp only [hfree] at hheld
    have honce : ∀ j, p.held j = some result.taskId → j = i := fun j hj =>
      h.once j i _ hj hheld₁
    refine ⟨⟨H, (hinv.report hu ⟨i, hheld₁⟩).congr (fun _ => Iff.rfl)
      (holds_release hheld₁ honce hheld)⟩, fun a b u ha hb => ?_⟩
    rw [hheld] at ha hb
    split at ha
    · cases ha
    · split at hb
      · cases hb
      · exact h.once a b u ha hb

theorem reaches (hu : g.UniqueIds) (h : Sound g hints p) (hr : Reaches Keeps p p') :
    Sound g hints p' := by
  induction hr with
  | start => exact h
  | next i label _ hk hs ih => exact ih.step hu hk hs

end Sound

namespace WorkerPool

variable {p p' : WorkerPool}

theorem Reaches.single {i : ℕ} {label : Label} (hk : p.Keeps i label)
    (hs : p.step i label = some p') : Reaches Keeps p p' :=
  .next i label .start hk hs

theorem Reaches.grows (h : Reaches Keeps p p') : Grows p.scheduler p'.scheduler := by
  induction h with
  | start => exact ⟨Finset.Subset.refl _, fun _ ht => ht, Finset.Subset.refl _, rfl⟩
  | next i label _ hk hs ih =>
    obtain ⟨_, _, -, -, -, -, hm⟩ := keeps_move hk hs
    have hg := hm.grows
    exact ⟨ih.completed.trans hg.completed, fun t ht => hg.failed t (ih.failed t ht),
      ih.skipped.trans hg.skipped, hg.totalTasks.trans ih.totalTasks⟩

theorem Reaches.sandboxes (h : Reaches Keeps p p') : p'.sandboxes = p.sandboxes := by
  induction h with
  | start => rfl
  | next i label _ hk hs ih =>
    obtain ⟨_, _, -, -, hsb, -, -⟩ := keeps_move hk hs
    exact hsb.trans ih

theorem Reaches.workers_length (h : Reaches Keeps p p') : p'.workers.length = p.workers.length := by
  induction h with
  | start => rfl
  | next i label _ hk hs ih =>
    obtain ⟨_, _, -, hset, -, -, -⟩ := keeps_move hk hs
    rw [hset, List.length_set, ih]

theorem resolves_executing {i : ℕ} {t : TaskId} {sandbox : SandboxName} {rest : List SandboxName}
    {agent : AgentHandle} {assigned : agent.taskId = some t}
    (hw : p.workers[i]? = some (.executing t sandbox rest agent assigned)) :
    ∃ p', Reaches Keeps p p' ∧ p'.scheduler.Resolved t := by
  have hk : p.Keeps i (.outcome 0 (.ok ⟨true, none, none⟩)) := by
    unfold Keeps Drops
    rw [hw]
    exact id
  have hs : p.step i (.outcome 0 (.ok ⟨true, none, none⟩)) =
      some (p.finish i sandbox agent t 0 ⟨true, none, none⟩) := by
    unfold step
    rw [hw]
  refine ⟨_, .single hk hs, ?_⟩
  have hdone := (grows_handleTaskCompletion p.scheduler
    ⟨agent.taskId.getD "", true, none, none⟩).2
  rw [assigned] at hdone
  show (p.scheduler.handleTaskCompletion ⟨agent.taskId.getD "", true, none, none⟩).Resolved t
  rw [assigned]
  exact hdone.imp id .inr

theorem resolves_creating {i : ℕ} {t : TaskId} {sandbox : SandboxName} {rest : List SandboxName}
    (hw : p.workers[i]? = some (.creating t sandbox rest)) :
    ∃ p', Reaches Keeps p p' ∧ p'.scheduler.Resolved t := by
  have hk : p.Keeps i (.layer 0 (.ok ⟨"", "", ""⟩)) := by
    unfold Keeps Drops
    rw [hw]
    exact id
  have hs : p.step i (.layer 0 (.ok ⟨"", "", ""⟩)) =
      some (p.beginTask i t sandbox rest 0 ⟨"", "", ""⟩) := by
    unfold step
    rw [hw]
  obtain ⟨hi, -⟩ := List.getElem?_eq_some_iff.mp hw
  obtain ⟨p', hr, hres⟩ := resolves_executing (p := p.beginTask i t sandbox rest 0 ⟨"", "", ""⟩)
    (List.getElem?_set_self hi)
  exact ⟨p', (Reaches.single hk hs).trans hr, hres⟩

theorem resolves_checking {i : ℕ} {t : TaskId} {sandbox : SandboxName} {rest : List SandboxName}
    (hw : p.workers[i]? = some (.checking t sandbox rest)) :
    ∃ p', Reaches Keeps p p' ∧ p'.scheduler.Resolved t := by
  -- late enough, the circuit is probed even when it is open
  obtain ⟨now, hnow⟩ := p.health.exists_healthy sandbox
  have hk : p.Keeps i (.health now) := by
    unfold Keeps Drops
    rw [hw]
    simp [hnow]
  have hs : p.step i (.health now) =
      some ({ p with health := (p.health.isSandboxHealthy now sandbox).1 }.setWorker i
        (.creating t sandbox rest)) := by
    unfold step
    rw [hw]
    simp only
    split
    · rename_i hh
      rw [hh]
    · rename_i hh
      rw [hh] at hnow
      cases hnow
  obtain ⟨hi, -⟩ := List.getElem?_eq_some_iff.mp hw
  obtain ⟨p', hr, hres⟩ := resolves_creating
    (p := { p with health := (p.health.isSandboxHealthy now sandbox).1 }.setWorker i
      (.creating t sandbox rest)) (List.getElem?_set_self hi)
  exact ⟨p', (Reaches.single hk hs).trans hr, hres⟩

theorem resolves_held {t : TaskId} (h : p.Holds t) :
    ∃ p', Reaches Keeps p p' ∧ p'.scheduler.Resolved t := by
  obtain ⟨i, hi⟩ := h
  obtain ⟨w, hw, htask⟩ := Option.bind_eq_some_iff.mp hi
  cases w with
  | polling rest found => cases htask
  | exited => cases htask
  | checking t' sandbox rest =>
    obtain rfl := Option.some.inj htask
    exact resolves_checking hw
  | creating t' sandbox rest =>
    obtain rfl := Option.some.inj htask
    exact resolves_creating hw
  | executing t' sandbox rest agent assigned =>
    obtain rfl := Option.some.inj htask
    exact resolves_executing hw

theorem keeps_poll (p : WorkerPool) (i : ℕ) : p.Keeps i .poll := by
  unfold Keeps Drops
  split <;> simp_all

/-- The rest of a `for` loop: a task is popped, or all the queues it visits are empty. -/
theorem poll_rest (i : ℕ) (found : Bool) (rest : List SandboxName) (p : WorkerPool)
    (hw : p.workers[i]? = some (.polling rest found)) :
    ∃ p', Reaches Keeps p p' ∧ ((∃ t, p'.Holds t) ∨
      (p'.workers[i]? = some (.polling [] found) ∧ p'.scheduler = p.scheduler ∧
        ∀ sb ∈ rest, p.scheduler.queue sb = [])) := by
  induction rest generalizing p with
  | nil => exact ⟨p, .start, .inr ⟨hw, rfl, by simp⟩⟩
  | cons sb rest ih =>
    obtain ⟨hi, -⟩ := List.getElem?_eq_some_iff.mp hw
    obtain ⟨s', r, hpop⟩ : ∃ s' r, p.scheduler.getReadyTask sb = (s', r) := ⟨_, _, rfl⟩
    cases r with
    | some t =>
      have hs : p.step i .poll =
          some ({ p with scheduler := s' }.setWorker i (.checking t sb rest)) := by
        unfold step
        rw [hw]
        simp only [hpop]
      refine ⟨_, .single (keeps_poll p i) hs, .inl ⟨t, i, ?_⟩⟩
      exact held_self (p := { p with scheduler := s' }.setWorker i (.checking t sb rest))
        (List.getElem?_set_self hi)
    | none =>
      have hs : p.step i .poll = some (p.setWorker i (.polling rest found)) := by
        unfold step
        rw [hw]
        simp only [hpop]
      obtain ⟨p', hr, hcase⟩ := ih (p.setWorker i (.polling rest found))
        (List.getElem?_set_self hi)
      refine ⟨p', (Reaches.single (keeps_poll p i) hs).trans hr, hcase.imp id ?_⟩
      rintro ⟨hw', hsch, hempty⟩
      refine ⟨hw', hsch, fun sb' hsb' => ?_⟩
      rcases List.mem_cons.mp hsb' with rfl | hsb'
      · exact (p.scheduler.getReadyTask_none hpop).2
      · exact hempty sb' hsb'

/-- A worker at the end of its `for` loop starts a new one, or finds the exit test true. -/
theorem poll_again {i : ℕ} {found : Bool} (hw : p.workers[i]? = some (.polling [] found)) :
    p.exitTest = true ∨
      p.step i .poll = some (p.setWorker i (.polling p.sandboxes false)) := by
  by_cases he : p.exitTest = true
  · exact .inl he
  · refine .inr ?_
    unfold step
    rw [hw]
    cases found with
    | true => rfl
    | false => exact if_neg he

theorem pops_queued {i : ℕ} {rest : List SandboxName} {found : Bool} {sb : SandboxName}
    (hw : p.workers[i]? = some (.polling rest found)) (hsb : sb ∈ p.sandboxes)
    (hq : p.scheduler.queue sb ≠ []) :
    ∃ p', Reaches Keeps p p' ∧ (p'.exitTest = true ∨ ∃ t, p'.Holds t) := by
  obtain ⟨p₁, hr₁, ht | ⟨hw₁, hsch₁, -⟩⟩ := poll_rest i found rest p hw
  · exact ⟨p₁, hr₁, .inr ht⟩
  · rcases poll_again hw₁ with he | hs
    · exact ⟨p₁, hr₁, .inl he⟩
    · obtain ⟨hi, -⟩ := List.getElem?_eq_some_iff.mp hw₁
      obtain ⟨p₂, hr₂, ht | ⟨-, -, hempty⟩⟩ := poll_rest i false p₁.sandboxes
        (p₁.setWorker i (.polling p₁.sandboxes false)) (List.getElem?_set_self hi)
      · exact ⟨p₂, (hr₁.next i .poll (keeps_poll p₁ i) hs).trans hr₂, .inr ht⟩
      · rw [hr₁.sandboxes] at hempty
        have hnil : p₁.scheduler.queue sb = [] := hempty sb hsb
        rw [hsch₁] at hnil
        exact absurd hnil hq

end WorkerPool

def unresolved (g : TaskGraph) (s : Scheduler) : ℕ :=
  (g.ids.filter (fun t => decide (¬ s.Resolved t))).length

theorem Grows.unresolved_lt {g : TaskGraph} {s s' : Scheduler} (h : Grows s s') {t : TaskId}
    (ht : t ∈ g.ids) (hno : ¬ s.Resolved t) (hyes : s'.Resolved t) :
    unresolved g s' < unresolved g s := by
  have hfilter : g.ids.filter (fun u => decide (¬ s'.Resolved u)) =
      (g.ids.filter (fun u => decide (¬ s.Resolved u))).filter
        (fun u => decide (¬ s'.Resolved u)) := by
    rw [List.filter_filter]
    refine List.filter_congr fun u _ => ?_
    by_cases hr : s.Resolved u
    · simp [hr, h.resolved hr]
    · simp [hr]
  rw [unresolved, hfilter]
  refine List.length_filter_lt_length_iff_exists.mpr ⟨t, ?_, by simp [hyes]⟩
  exact List.mem_filter.mpr ⟨ht, by simp [hno]⟩

theorem exitTest_of_resolved {g : TaskGraph} {p : WorkerPool} (hu : g.UniqueIds)
    (htotal : p.scheduler.totalTasks = g.tasks.length)
    (hall : ∀ t ∈ g.ids, p.scheduler.Resolved t) : p.exitTest = true := by
  have hsub : g.ids.toFinset ⊆
      p.scheduler.completed ∪ p.scheduler.skipped ∪ p.scheduler.failed.keys.toFinset := by
    intro t ht
    rcases hall t (List.mem_toFinset.mp ht) with hr | hr | hr
    · exact Finset.mem_union_left _ (Finset.mem_union_left _ hr)
    · exact Finset.mem_union_left _ (Finset.mem_union_right _ hr)
    · exact Finset.mem_union_right _ (List.mem_toFinset.mpr hr)
  have hlen : g.tasks.length = g.ids.toFinset.card := by
    rw [List.toFinset_card_of_nodup hu, TaskGraph.ids, List.length_map]
  have hcard := Finset.card_le_card hsub
  have h₁ := Finset.card_union_le (p.scheduler.completed ∪ p.scheduler.skipped)
    p.scheduler.failed.keys.toFinset
  have h₂ := Finset.card_union_le p.scheduler.completed p.scheduler.skipped
  have h₃ : p.scheduler.failed.keys.toFinset.card = p.scheduler.failed.keys.length :=
    List.toFinset_card_of_nodup p.scheduler.failed.keys_nodup
  refine decide_eq_true ?_
  simp only [getStats]
  omega

theorem Sound.exists_queued {g : TaskGraph} {hints : HashMap TaskId SandboxName}
    {sandboxes : List SandboxName} {p : WorkerPool} (hwf : WellFormed g hints sandboxes)
    (h : Sound g hints p) (hidle : ∀ t, ¬ p.Holds t) {t : TaskId} (ht : t ∈ g.ids)
    (hres : ¬ p.scheduler.Resolved t) :
    ∃ sb ∈ sandboxes, p.scheduler.queue sb ≠ [] := by
  obtain ⟨H, hinv⟩ := h.inv
  obtain ⟨m, hm, hq⟩ := hinv.exists_queued hwf.unique hwf.closed hwf.acyclic hidle ht hres
  refine ⟨p.scheduler.sandboxOf m, ?_, hq⟩
  rw [sandboxOf, hinv.static.sandboxHints]
  exact hwf.listed m hm

/-- **From every state of a careful run the exit test can become true.** -/
theorem Sound.exists_exit {g : TaskGraph} {hints : HashMap TaskId SandboxName}
    {p : WorkerPool} (hwf : WellFormed g hints p.sandboxes) (h : Sound g hints p)
    (hworkers : 0 < p.workers.length) :
    ∃ p', Reaches Keeps p p' ∧ p'.exitTest = true := by
  induction hn : unresolved g p.scheduler using Nat.strongRecOn generalizing p with
  | ind n ih =>
    -- a continuation in which one more task is resolved
    have hfinish : ∀ p₁, Reaches Keeps p p₁ → ∀ t, p₁.Holds t →
        ∃ p', Reaches Keeps p p' ∧ p'.exitTest = true := by
      intro p₁ hr₁ t ht
      have h₁ := h.reaches hwf.unique hr₁
      obtain ⟨H, hinv⟩ := h₁.inv
      obtain ⟨p₂, hr₂, hres₂⟩ := resolves_held ht
      have hr := hr₁.trans hr₂
      obtain ⟨hsk, task, htask, rfl, -⟩ := hinv.handed t ((hinv.status t).mpr (.inl ht))
      obtain ⟨hc, hf⟩ := hinv.outstanding _ ht
      have hno₁ : ¬ p₁.scheduler.Resolved task.id := fun hres =>
        hres.elim hc fun hres => hres.elim hsk hf
      have hno : ¬ p.scheduler.Resolved task.id := fun hres => hno₁ (hr₁.grows.resolved hres)
      have hids : task.id ∈ g.ids := List.mem_map.mpr ⟨task, htask, rfl⟩
      have hlt := hr.grows.unresolved_lt hids hno hres₂
      obtain ⟨p', hr', he⟩ := ih (unresolved g p₂.scheduler) (hn ▸ hlt) (p := p₂)
        (by rw [hr.sandboxes]; exact hwf) (h.reaches hwf.unique hr)
        (by rw [hr.workers_length]; exact hworkers) rfl
      exact ⟨p', hr.trans hr', he⟩
    by_cases hheld : ∃ t, p.Holds t
    · obtain ⟨t, ht⟩ := hheld
      exact hfinish p .start t ht
    · have hidle : ∀ t, ¬ p.Holds t := fun t ht => hheld ⟨t, ht⟩
      by_cases hall : ∀ t ∈ g.ids, p.scheduler.Resolved t
      · obtain ⟨H, hinv⟩ := h.inv
        exact ⟨p, .start, exitTest_of_resolved hwf.unique hinv.static.totalTasks hall⟩
      · push Not at hall
        obtain ⟨t, ht, hres⟩ := hall
        obtain ⟨sb, hsb, hq⟩ := h.exists_queued hwf hidle ht hres
        have hw : p.workers[0]? = some p.workers[0] := List.getElem?_eq_getElem hworkers
        cases hw0 : p.workers[0] with
        | exited =>
          rw [hw0] at hw
          exact ⟨p, .start, h.exited 0 hw⟩
        | polling rest found =>
          rw [hw0] at hw
          obtain ⟨p₁, hr₁, he | ⟨t', ht'⟩⟩ := pops_queued hw hsb hq
          · exact ⟨p₁, hr₁, he⟩
          · exact hfinish p₁ hr₁ t' ht'
        | checking t' _ _ => exact absurd ⟨0, by rw [held_self hw, hw0]; rfl⟩ (hidle t')
        | creating t' _ _ => exact absurd ⟨0, by rw [held_self hw, hw0]; rfl⟩ (hidle t')
        | executing t' _ _ _ _ => exact absurd ⟨0, by rw [held_self hw, hw0]; rfl⟩ (hidle t')

def oneTask : TaskGraph := ⟨[⟨"t1", "write the parser", [], none⟩]⟩

def oneWorker : WorkerPool := WorkerPool.start .standard 1 oneTask ∅ ["default"]

/-- `t1` was popped, and no container could be created for it. -/
def afterCreateFailure : WorkerPool :=
  { oneWorker with
    scheduler := (oneWorker.scheduler.getReadyTask "default").1
    workers := [.polling [] true]
    errors := ["[Worker 0] Failed to create agent: no space left"] }

theorem create_failure_loses_task :
    ∃ p, WorkerPool.Reaches (fun _ _ _ => True) oneWorker p ∧ ¬ p.Conserved oneTask := by
  refine ⟨afterCreateFailure, .next 0 (.layer 0 (.error "no space left"))
    (.next 0 (.health 0) (.next 0 .poll .start trivial rfl) trivial rfl) trivial rfl, fun h => ?_⟩
  rcases h "t1" (by decide) with ⟨sb, hq⟩ | ⟨i, hi⟩ | hr | ⟨task, hl, d, hd, -⟩
  · have hq : "t1" ∈ HashMap.bucket ((buildReadyQueues oneTask ∅).insert "default" []) sb := hq
    rw [HashMap.bucket_insert] at hq
    split at hq
    · cases hq
    · rename_i hsb
      exact hsb (mem_bucket_buildReadyQueues.mp hq).1.symm
  · cases i <;> cases hi
  · revert hr
    decide
  · obtain ⟨hmem, -⟩ := mem_of_lookup_buildTaskMap (g := oneTask) hl
    obtain rfl := List.mem_singleton.mp hmem
    cases hd

/-- **Careful runs conserve tasks.**  For any plan, a worker keeps the task it popped
until the task is completed or failed, and every task is queued, held, in a final
state or waiting for a dependency that is in none.  For a well-formed plan the exit
test can still become true. -/
theorem careful_runs_conserve (mode : PoolMode) (maxAgents : ℕ) (g : TaskGraph)
    (hints : HashMap TaskId SandboxName) (sandboxes : List SandboxName) {p : WorkerPool}
    (h : WorkerPool.Reaches WorkerPool.Keeps
      (WorkerPool.start mode maxAgents g hints sandboxes) p) :
    (∀ i label p' t, p.Keeps i label → p.step i label = some p' → p.held i = some t →
      p'.held i = some t ∨ t ∈ p'.scheduler.completed ∨ t ∈ p'.scheduler.failed) ∧
    p.Conserved g ∧
    (WellFormed g hints sandboxes → 0 < maxAgents →
      ∃ p', WorkerPool.Reaches WorkerPool.Keeps p p' ∧ p'.exitTest = true) := by
  refine ⟨fun i label p' t hk hs ht => ?_, h.placed.conserved, fun hwf hpos => ?_⟩
  · obtain ⟨w, w', hw, hset, -, -, hm⟩ := keeps_move hk hs
    rw [held_self hw] at ht
    rw [held_set hw hset, if_pos rfl]
    exact hm.keeps ht
  · have hsound := (Sound.start hwf.unique hints mode maxAgents sandboxes).reaches hwf.unique h
    refine hsound.exists_exit (h.sandboxes ▸ hwf) ?_
    rw [h.workers_length]
    show 0 < (List.replicate _ _).length
    rw [List.length_replicate]
    cases mode with
    | standard => exact Nat.lt_min.mpr ⟨hpos, by decide⟩
    | full => exact Nat.lt_min.mpr ⟨hpos, by decide⟩

theorem careful_runs_conserve_oneTask :
    oneWorker.Conserved oneTask ∧
      ∃ p', WorkerPool.Reaches WorkerPool.Keeps oneWorker p' ∧ p'.exitTest = true :=
  have hwf : WellFormed oneTask ∅ ["default"] :=
    { unique := by decide
      closed := by decide
      acyclic := fun t h => by
        obtain ⟨u, ⟨task, htask, -, hd⟩, -⟩ := Relation.TransGen.head'_iff.mp h
        obtain rfl := List.mem_singleton.mp htask
        cases hd
      listed := by decide }
  have h := careful_runs_conserve .standard 1 oneTask ∅ ["default"] .start
  ⟨h.2.1, h.2.2 hwf (by decide)⟩

end Mowis.Pool
