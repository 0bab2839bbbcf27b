import Mowis.Scheduling.Build

/-!
# What each scheduler operation can do

One lemma per operation, used by every invariant proof that follows.
-/

namespace Mowis.Scheduling

open Mowis.Lib

namespace Scheduler

variable (s : Scheduler)

theorem queue_enqueue (t : TaskId) (sb : SandboxName) :
    (s.enqueue t).queue sb = s.queue sb ++ if sb = s.sandboxOf t then [t] else [] :=
  HashMap.bucket_entryPush _ _ _ _

theorem queue_skip (t : TaskId) (sb : SandboxName) :
    (s.skip t).queue sb = (s.queue sb).filter (fun id => decide (id ≠ t)) :=
  HashMap.bucket_mapValues (fun q => q.filter (fun id => decide (id ≠ t))) rfl _ _

theorem resolved_skip (t u : TaskId) : (s.skip t).Resolved u ↔ u = t ∨ s.Resolved u := by
  simp only [Resolved, skip, Finset.mem_insert]
  tauto

theorem getReadyTask_some {sb : SandboxName} {s' : Scheduler} {t : TaskId}
    (h : s.getReadyTask sb = (s', some t)) :
    ∃ rest, s.queue sb = t :: rest ∧
      s' = { s with readyQueues := s.readyQueues.insert sb rest } := by
  rw [getReadyTask] at h
  split at h
  · rename_i t' rest hq
    obtain ⟨rfl, ht⟩ := Prod.mk.inj h
    obtain rfl := Option.some.inj ht
    exact ⟨rest, by rw [queue, HashMap.bucket, hq]; rfl, rfl⟩
  · cases h

theorem getReadyTask_none {sb : SandboxName} {s' : Scheduler}
    (h : s.getReadyTask sb = (s', none)) : s' = s ∧ s.queue sb = [] := by
  rw [getReadyTask] at h
  split at h
  · cases h
  · rename_i hq
    obtain ⟨rfl, -⟩ := Prod.mk.inj h
    refine ⟨rfl, ?_⟩
    rw [queue, HashMap.bucket]
    cases hl : s.readyQueues.lookup sb with
    | none => rfl
    | some q =>
      cases q with
      | nil => rfl
      | cons t rest => exact absurd hl (hq t rest)

theorem queue_insert_readyQueues (sb sb' : SandboxName) (rest : List TaskId) :
    ({ s with readyQueues := s.readyQueues.insert sb rest } : Scheduler).queue sb' =
      if sb' = sb then rest else s.queue sb' :=
  HashMap.bucket_insert _ _ _ _

/-! ### Unlocking -/

/-- How often a counter at `c` passes from one to zero in `n` decrements. -/
def crossings : ℕ → ℕ → ℕ
  | _, 0 => 0
  | c, n + 1 => (if c = 1 then 1 else 0) + crossings (fetchSub c) n

theorem iterate_fetchSub (c n : ℕ) (h : n ≤ c) : fetchSub^[n] c = c - n := by
  induction n generalizing c with
  | zero => rfl
  | succ n ih =>
    have hpos : c ≠ 0 := by omega
    rw [Function.iterate_succ_apply, fetchSub, if_neg hpos, ih _ (by omega)]
    omega

theorem crossings_of_le (c n : ℕ) (h : n ≤ c) :
    crossings c n = if 0 < n ∧ n = c then 1 else 0 := by
  induction n generalizing c with
  | zero => rfl
  | succ n ih =>
    have hpos : c ≠ 0 := by omega
    rw [crossings, fetchSub, if_neg hpos, ih _ (by omega)]
    split_ifs <;> omega

theorem crossings_pos (c n : ℕ) (hc : 0 < c) (h : c ≤ n) : 0 < crossings c n := by
  induction n generalizing c with
  | zero => omega
  | succ n ih =>
    rw [crossings]
    by_cases h1 : c = 1
    · rw [if_pos h1]
      omega
    · have hnz : c ≠ 0 := by omega
      rw [fetchSub, if_neg hnz, if_neg h1, Nat.zero_add]
      exact ih (c - 1) (by omega) (by omega)

def Blocked (t : TaskId) : Prop := t ∈ s.failed ∨ t ∈ s.skipped

theorem unlockOne_cases (t : TaskId) :
    (s.unlockOne t = s ∧ (s.Blocked t ∨ s.depCounter.lookup t = none)) ∨
    ∃ prev, ¬ s.Blocked t ∧ s.depCounter.lookup t = some prev ∧
      ((prev = 1 ∧ s.unlockOne t =
          ({ s with depCounter := s.depCounter.insert t (fetchSub prev) } : Scheduler).enqueue t) ∨
        (prev ≠ 1 ∧ s.unlockOne t =
          { s with depCounter := s.depCounter.insert t (fetchSub prev) })) := by
  by_cases hb : s.Blocked t
  · exact .inl ⟨if_pos hb, .inl hb⟩
  · have hfree : ¬ (t ∈ s.failed ∨ t ∈ s.skipped) := hb
    cases hc : s.depCounter.lookup t with
    | none =>
      refine .inl ⟨?_, .inr rfl⟩
      rw [unlockOne, if_neg hfree, hc]
    | some prev =>
      refine .inr ⟨prev, hb, rfl, ?_⟩
      rw [unlockOne, if_neg hfree, hc]
      by_cases h1 : prev = 1
      · exact .inl ⟨h1, if_pos h1⟩
      · exact .inr ⟨h1, if_neg h1⟩

theorem unlock_frame (ts : List TaskId) (s : Scheduler) :
    ∃ dc rq, ts.foldl unlockOne s = { s with depCounter := dc, readyQueues := rq } := by
  induction ts generalizing s with
  | nil => exact ⟨s.depCounter, s.readyQueues, rfl⟩
  | cons t ts ih =>
    obtain ⟨dc, rq, h⟩ := ih (s.unlockOne t)
    rw [List.foldl_cons, h]
    obtain ⟨heq, -⟩ | ⟨prev, -, -, ⟨-, heq⟩ | ⟨-, heq⟩⟩ := s.unlockOne_cases t
    · exact ⟨dc, rq, by rw [heq]⟩
    · exact ⟨dc, rq, by rw [heq, enqueue]⟩
    · exact ⟨dc, rq, by rw [heq]⟩

theorem unlockDependents_frame (s : Scheduler) (t : TaskId) :
    ∃ dc rq, s.unlockDependents t = { s with depCounter := dc, readyQueues := rq } :=
  unlock_frame (s.dependentsOf t) s

theorem unlockOne_view (t u : TaskId) :
    (t ≠ u → (s.unlockOne t).depCounter.lookup u = s.depCounter.lookup u ∧
      ∀ sb, ((s.unlockOne t).queue sb).count u = (s.queue sb).count u) ∧
    (s.Blocked u ∨ s.depCounter.lookup u = none → s.unlockOne u = s) ∧
    (∀ c, ¬ s.Blocked u → s.depCounter.lookup u = some c →
      (s.unlockOne u).depCounter.lookup u = some (fetchSub c) ∧
      ∀ sb, ((s.unlockOne u).queue sb).count u =
        (s.queue sb).count u + if sb = s.sandboxOf u then (if c = 1 then 1 else 0) else 0) := by
  refine ⟨fun hne => ?_, fun hb => ?_, fun c hb hc => ?_⟩
  · obtain ⟨heq, -⟩ | ⟨prev, -, -, ⟨-, heq⟩ | ⟨-, heq⟩⟩ := s.unlockOne_cases t
    · exact ⟨by rw [heq], fun sb => by rw [heq]⟩
    · rw [heq]
      refine ⟨AList.lookup_insert_ne (Ne.symm hne), fun sb => ?_⟩
      rw [queue_enqueue, List.count_append]
      split
      · rw [List.count_singleton, beq_false_of_ne hne]
        rfl
      · rfl
    · rw [heq]
      exact ⟨AList.lookup_insert_ne (Ne.symm hne), fun sb => rfl⟩
  · obtain ⟨heq, -⟩ | ⟨prev, hnb, hprev, -⟩ := s.unlockOne_cases u
    · exact heq
    · rcases hb with hb | hb
      · exact absurd hb hnb
      · rw [hb] at hprev
        cases hprev
  · obtain ⟨-, hbad⟩ | ⟨prev, -, hprev, hcase⟩ := s.unlockOne_cases u
    · rcases hbad with hbad | hbad
      · exact absurd hbad hb
      · rw [hbad] at hc
        cases hc
    · obtain rfl : prev = c := Option.some.inj (hprev.symm.trans hc)
      rcases hcase with ⟨h1, heq⟩ | ⟨h1, heq⟩
      · rw [heq]
        refine ⟨AList.lookup_insert _, fun sb => ?_⟩
        rw [queue_enqueue, List.count_append, if_pos h1]
        show (s.queue sb).count u + List.count u (if sb = s.sandboxOf u then [u] else []) = _
        split <;> simp
      · rw [heq, if_neg h1]
        exact ⟨AList.lookup_insert _, fun sb => by rw [ite_self]; rfl⟩

theorem blocked_unlockOne (t u : TaskId) : (s.unlockOne t).Blocked u ↔ s.Blocked u := by
  obtain ⟨heq, -⟩ | ⟨prev, -, -, ⟨-, heq⟩ | ⟨-, heq⟩⟩ := s.unlockOne_cases t <;> rw [heq] <;> rfl

theorem sandboxOf_unlockOne (t u : TaskId) : (s.unlockOne t).sandboxOf u = s.sandboxOf u := by
  obtain ⟨heq, -⟩ | ⟨prev, -, -, ⟨-, heq⟩ | ⟨-, heq⟩⟩ := s.unlockOne_cases t <;> rw [heq] <;> rfl

theorem unlock_inert (ts : List TaskId) (s : Scheduler) (u : TaskId)
    (hb : s.Blocked u ∨ s.depCounter.lookup u = none) :
    (ts.foldl unlockOne s).depCounter.lookup u = s.depCounter.lookup u ∧
      ∀ sb, ((ts.foldl unlockOne s).queue sb).count u = (s.queue sb).count u := by
  induction ts generalizing s with
  | nil => exact ⟨rfl, fun _ => rfl⟩
  | cons t ts ih =>
    obtain ⟨hother, hself, -⟩ := s.unlockOne_view t u
    rw [List.foldl_cons]
    by_cases htu : t = u
    · subst htu
      rw [hself hb]
      exact ih s hb
    · obtain ⟨hl, hc⟩ := hother htu
      have hb' : (s.unlockOne t).Blocked u ∨ (s.unlockOne t).depCounter.lookup u = none :=
        hb.imp (s.blocked_unlockOne t u).mpr hl.trans
      obtain ⟨hlook, hcount⟩ := ih (s.unlockOne t) hb'
      exact ⟨hlook.trans hl, fun sb => (hcount sb).trans (hc sb)⟩

theorem unlock_view (ts : List TaskId) (s : Scheduler) (u : TaskId) (c : ℕ)
    (hb : ¬ s.Blocked u) (hc : s.depCounter.lookup u = some c) :
    (ts.foldl unlockOne s).depCounter.lookup u = some (fetchSub^[ts.count u] c) ∧
      ∀ sb, ((ts.foldl unlockOne s).queue sb).count u = (s.queue sb).count u +
        if sb = s.sandboxOf u then crossings c (ts.count u) else 0 := by
  induction ts generalizing s c with
  | nil => exact ⟨hc, fun sb => by simp [crossings]⟩
  | cons t ts ih =>
    have hb' : ¬ (s.unlockOne t).Blocked u := fun h => hb ((s.blocked_unlockOne t u).mp h)
    obtain ⟨hother, -, hself⟩ := s.unlockOne_view t u
    by_cases htu : t = u
    · subst htu
      obtain ⟨hlook, hcount⟩ := hself c hb hc
      obtain ⟨hl, hq⟩ := ih (s.unlockOne t) (fetchSub c) hb' hlook
      rw [List.foldl_cons, List.count_cons_self, Function.iterate_succ_apply]
      refine ⟨hl, fun sb => ?_⟩
      rw [hq sb, hcount sb, sandboxOf_unlockOne, crossings, Nat.add_assoc]
      split <;> rfl
    · obtain ⟨hlook, hcount⟩ := hother htu
      obtain ⟨hl, hq⟩ := ih (s.unlockOne t) c hb' (hlook.trans hc)
      rw [List.foldl_cons, List.count_cons_of_ne htu]
      refine ⟨hl, fun sb => ?_⟩
      rw [hq sb, hcount sb, sandboxOf_unlockOne]

section unlockDependents

variable (t : TaskId)

@[simp] theorem completed_unlockDependents : (s.unlockDependents t).completed = s.completed := by
  obtain ⟨dc, rq, hframe⟩ := s.unlockDependents_frame t
  rw [hframe]

@[simp] theorem failed_unlockDependents : (s.unlockDependents t).failed = s.failed := by
  obtain ⟨dc, rq, hframe⟩ := s.unlockDependents_frame t
  rw [hframe]

@[simp] theorem skipped_unlockDependents : (s.unlockDependents t).skipped = s.skipped := by
  obtain ⟨dc, rq, hframe⟩ := s.unlockDependents_frame t
  rw [hframe]

@[simp] theorem taskGraph_unlockDependents : (s.unlockDependents t).taskGraph = s.taskGraph := by
  obtain ⟨dc, rq, hframe⟩ := s.unlockDependents_frame t
  rw [hframe]

@[simp] theorem sandboxOf_unlockDependents (u : TaskId) :
    (s.unlockDependents t).sandboxOf u = s.sandboxOf u := by
  obtain ⟨dc, rq, hframe⟩ := s.unlockDependents_frame t
  rw [hframe]
  rfl

@[simp] theorem unsatisfied_unlockDependents (task : Task) :
    (s.unlockDependents t).unsatisfied task = s.unsatisfied task := by
  rw [unsatisfied, unsatisfied, completed_unlockDependents]

theorem unlockDependents_inert {u : TaskId} (hb : s.Blocked u ∨ s.depCounter.lookup u = none) :
    (s.unlockDependents t).depCounter.lookup u = s.depCounter.lookup u ∧
      ∀ sb, ((s.unlockDependents t).queue sb).count u = (s.queue sb).count u :=
  unlock_inert (s.dependentsOf t) s u hb

theorem unlockDependents_view {u : TaskId} {c : ℕ} (hb : ¬ s.Blocked u)
    (hc : s.depCounter.lookup u = some c) :
    (s.unlockDependents t).depCounter.lookup u = some (fetchSub^[(s.dependentsOf t).count u] c) ∧
      ∀ sb, ((s.unlockDependents t).queue sb).count u = (s.queue sb).count u +
        if sb = s.sandboxOf u then crossings c ((s.dependentsOf t).count u) else 0 :=
  unlock_view (s.dependentsOf t) s u c hb hc

end unlockDependents

/-- Unlocking the dependents of `t` takes the counter of `u` to zero. -/
def Readies (t u : TaskId) : Prop :=
  ¬ s.Blocked u ∧ ∃ c, s.depCounter.lookup u = some c ∧ 0 < crossings c ((s.dependentsOf t).count u)

theorem mem_queue_unlockDependents (t u : TaskId) (sb : SandboxName) :
    u ∈ (s.unlockDependents t).queue sb ↔
      u ∈ s.queue sb ∨ (sb = s.sandboxOf u ∧ s.Readies t u) := by
  rw [unlockDependents, ← List.count_pos_iff, ← List.count_pos_iff]
  by_cases hb : s.Blocked u ∨ s.depCounter.lookup u = none
  · rw [(unlock_inert (s.dependentsOf t) s u hb).2 sb]
    refine ⟨Or.inl, fun h => h.resolve_right fun hh => ?_⟩
    obtain ⟨-, hnb, c, hl, -⟩ := hh
    rcases hb with hb | hb
    · exact hnb hb
    · rw [hl] at hb
      cases hb
  · obtain ⟨hnb, hsome⟩ := not_or.mp hb
    obtain ⟨c, hc⟩ := Option.ne_none_iff_exists'.mp hsome
    rw [(unlock_view (s.dependentsOf t) s u c hnb hc).2 sb]
    have hready : s.Readies t u ↔ 0 < crossings c ((s.dependentsOf t).count u) := by
      constructor
      · intro h
        obtain ⟨-, c', hl, hpos⟩ := h
        obtain rfl := Option.some.inj (hl.symm.trans hc)
        exact hpos
      · exact fun hpos => ⟨hnb, c, hc, hpos⟩
    rw [hready]
    split
    · rename_i hsb
      simp only [hsb, true_and]
      omega
    · rename_i hsb
      simp [hsb]

theorem handleTaskCompletion_success {result : AgentResult} (h : result.success = true) :
    s.handleTaskCompletion result =
      ({ s with
        running := s.running.erase result.taskId
        results := s.results.insert result.taskId result
        completed := insert result.taskId s.completed } : Scheduler).unlockDependents
          result.taskId := by
  rw [handleTaskCompletion]
  exact if_pos h

theorem handleTaskCompletion_frame {result : AgentResult} (h : result.success = true) :
    ∃ dc rq, s.handleTaskCompletion result =
      { s with
        depCounter := dc
        readyQueues := rq
        running := s.running.erase result.taskId
        results := s.results.insert result.taskId result
        completed := insert result.taskId s.completed } := by
  rw [s.handleTaskCompletion_success h]
  exact unlockDependents_frame _ _

/-- What the skip loop has done when it stops. -/
structure SkipSpec (s s' : Scheduler) : Prop where
  frame : s' = { s with skipped := s'.skipped, readyQueues := s'.readyQueues }
  grow : s.skipped ⊆ s'.skipped
  queue : ∀ sb, s'.queue sb =
    (s.queue sb).filter (fun t => decide (t ∈ s'.skipped → t ∈ s.skipped))
  fresh : ∀ t ∈ s'.skipped, t ∈ s.skipped ∨ ¬ s.Resolved t
  cause : ∀ t ∈ s'.skipped, t ∈ s.skipped ∨
    ∀ task, s.taskGraph.lookup t = some task → ∃ d ∈ task.deps, d ∈ s.failed ∨ d ∈ s'.skipped

theorem SkipSpec.refl (s : Scheduler) : SkipSpec s s where
  frame := rfl
  grow := Finset.Subset.refl _
  queue sb := by simp
  fresh _ h := .inl h
  cause _ h := .inl h

theorem SkipSpec.resolved_iff {s s' : Scheduler} (h : SkipSpec s s') (t : TaskId) :
    s'.Resolved t ↔ s.Resolved t ∨ t ∈ s'.skipped := by
  have hc : s'.completed = s.completed := by rw [h.frame]
  have hf : s'.failed = s.failed := by rw [h.frame]
  have hg : t ∈ s.skipped → t ∈ s'.skipped := fun ht => h.grow ht
  simp only [Resolved, hc, hf]
  tauto

theorem shouldSkip_cause {t : TaskId} (h : s.shouldSkip t = true) (task : Task)
    (hl : s.taskGraph.lookup t = some task) : ∃ d ∈ task.deps, d ∈ s.failed ∨ d ∈ s.skipped := by
  rw [shouldSkip, hl] at h
  simpa using h

theorem SkipSpec.skip {s s' : Scheduler} {t : TaskId} (hres : ¬ s.Resolved t)
    (hskip : s.shouldSkip t = true) (h : SkipSpec (s.skip t) s') : SkipSpec s s' := by
  have ht : t ∈ s'.skipped := h.grow (Finset.mem_insert_self _ _)
  have hts : t ∉ s.skipped := fun hm => hres (.inr (.inl hm))
  refine ⟨?_, ?_, fun sb => ?_, fun u hu => ?_, fun u hu => ?_⟩
  · rw [h.frame]
    rfl
  · exact (Finset.subset_insert _ _).trans h.grow
  · rw [h.queue, queue_skip, List.filter_filter]
    refine List.filter_congr fun u _ => ?_
    by_cases hut : u = t
    · subst hut
      simp [ht, hts]
    · simp [Scheduler.skip, hut]
  · rcases h.fresh u hu with hu | hu
    · rcases Finset.mem_insert.mp hu with rfl | hu
      · exact .inr hres
      · exact .inl hu
    · exact .inr fun hr => hu ((s.resolved_skip t u).mpr (.inr hr))
  · rcases h.cause u hu with hu | hu
    · rcases Finset.mem_insert.mp hu with rfl | hu
      · refine .inr fun task hl => ?_
        obtain ⟨d, hd, hbad⟩ := s.shouldSkip_cause hskip task hl
        exact ⟨d, hd, hbad.imp id fun hm => h.grow (Finset.mem_insert_of_mem hm)⟩
      · exact .inl hu
    · exact .inr hu

theorem skipLoop_spec (s : Scheduler) (toSkip : List TaskId) :
    SkipSpec s (s.skipLoop toSkip) := by
  induction s, toSkip using skipLoop.induct with
  | case1 s =>
    rw [skipLoop]
    exact SkipSpec.refl s
  | case2 s t rest hres ih =>
    rw [skipLoop, if_pos hres]
    exact ih
  | case3 s t rest hres hskip ih =>
    rw [skipLoop, if_neg hres, if_pos hskip]
    exact SkipSpec.skip hres hskip ih
  | case4 s t rest hres hskip ih =>
    rw [skipLoop, if_neg hres, if_neg hskip]
    exact ih

theorem mem_skipped_skipLoop (s : Scheduler) (toSkip : List TaskId) :
    ∀ t ∈ (s.skipLoop toSkip).skipped,
      t ∈ s.skipped ∨ t ∈ toSkip ∨ ∃ d, t ∈ s.dependentsOf d := by
  induction s, toSkip using skipLoop.induct with
  | case1 s =>
    rw [skipLoop]
    exact fun t ht => .inl ht
  | case2 s t rest hres ih =>
    rw [skipLoop, if_pos hres]
    exact fun u hu => (ih u hu).imp_right (Or.imp_left (List.mem_cons_of_mem _))
  | case3 s t rest hres hskip ih =>
    rw [skipLoop, if_neg hres, if_pos hskip]
    intro u hu
    rcases ih u hu with hu | hu | hu
    · rcases Finset.mem_insert.mp hu with rfl | hu
      · exact .inr (.inl List.mem_cons_self)
      · exact .inl hu
    · rcases List.mem_append.mp hu with hu | hu
      · exact .inr (.inl (List.mem_cons_of_mem _ hu))
      · exact .inr (.inr ⟨t, hu⟩)
    · exact .inr (.inr hu)
  | case4 s t rest hres hskip ih =>
    rw [skipLoop, if_neg hres, if_neg hskip]
    exact fun u hu => (ih u hu).imp_right (Or.imp_left (List.mem_cons_of_mem _))

/-- No unresolved task has a failed or skipped dependency. -/
def NoDoomed : Prop :=
  ∀ t task, s.taskGraph.lookup t = some task → ¬ s.Resolved t →
    ∀ d ∈ task.deps, d ∉ s.failed ∧ d ∉ s.skipped

def Covers (toSkip : List TaskId) : Prop :=
  ∀ t task, s.taskGraph.lookup t = some task → ¬ s.Resolved t →
    ∀ d ∈ task.deps, d ∈ s.failed ∨ d ∈ s.skipped → t ∈ toSkip

def DependentsComplete : Prop :=
  ∀ t task, s.taskGraph.lookup t = some task → ∀ d ∈ task.deps, t ∈ s.dependentsOf d

theorem Covers.skip {s : Scheduler} {t : TaskId} {rest : List TaskId} (hd : s.DependentsComplete)
    (h : s.Covers (t :: rest)) : (s.skip t).Covers (rest ++ s.dependentsOf t) := by
  intro u task hl hres d hdep hbad
  have hne : u ≠ t := fun he => hres ((s.resolved_skip t u).mpr (.inl he))
  have hres' : ¬ s.Resolved u := fun hr => hres ((s.resolved_skip t u).mpr (.inr hr))
  refine List.mem_append.mpr ?_
  by_cases hdt : d = t
  · exact .inr (hdt ▸ hd u task hl d hdep)
  · have hbad' : d ∈ s.failed ∨ d ∈ s.skipped :=
      hbad.imp id fun hm => (Finset.mem_insert.mp hm).resolve_left hdt
    exact .inl ((List.mem_cons.mp (h u task hl hres' d hdep hbad')).resolve_left hne)

theorem skipLoop_noDoomed (s : Scheduler) (toSkip : List TaskId) (hd : s.DependentsComplete)
    (hcov : s.Covers toSkip) : (s.skipLoop toSkip).NoDoomed := by
  induction s, toSkip using skipLoop.induct with
  | case1 s =>
    rw [skipLoop]
    intro t task hl hres d hdep
    have hno := hcov t task hl hres d hdep
    exact ⟨fun hf => absurd (hno (.inl hf)) (by simp), fun hs => absurd (hno (.inr hs)) (by simp)⟩
  | case2 s t rest hr ih =>
    rw [skipLoop, if_pos hr]
    refine ih hd fun u task hl hres d hdep hbad => ?_
    have hne : u ≠ t := fun he => hres (he ▸ hr)
    exact (List.mem_cons.mp (hcov u task hl hres d hdep hbad)).resolve_left hne
  | case3 s t rest hr hskip ih =>
    rw [skipLoop, if_neg hr, if_pos hskip]
    exact ih hd (hcov.skip hd)
  | case4 s t rest hr hskip ih =>
    rw [skipLoop, if_neg hr, if_neg hskip]
    refine ih hd fun u task hl hres d hdep hbad => ?_
    refine (List.mem_cons.mp (hcov u task hl hres d hdep hbad)).resolve_left ?_
    rintro rfl
    apply hskip
    rw [shouldSkip, hl]
    simpa using ⟨d, hdep, hbad⟩

end Scheduler

end Mowis.Scheduling
