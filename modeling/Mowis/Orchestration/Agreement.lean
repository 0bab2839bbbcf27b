import Mowis.Orchestration.Waves

/-!
# Validation and the order of execution

`Plan::validate` and `topological_sort` are two algorithms for one question.  The
sort is followed here on any plan with distinct ids, valid or not: an in-degree counts
the listed dependencies that no wave has taken yet, unknown ones included, so that a
task with an unknown dependency never enters a wave.
-/

namespace Mowis.Orchestration

open Mowis.Lib

variable {plan : Plan}

/-- Every in-degree counts the listed dependencies that are not in `done`. -/
def DegreesLeft (plan : Plan) (done remaining : List TaskId) (inDegree : HashMap TaskId ℕ) :
    Prop :=
  ∀ task ∈ plan.tasks, task.id ∈ remaining →
    degree inDegree task.id = (task.deps.filter (fun d => decide (d ∉ done))).length

theorem DegreesLeft.start (hu : plan.ids.Nodup) :
    DegreesLeft plan [] plan.ids (countDegrees plan.tasks) := by
  intro task htask _
  rw [degree_countDegrees hu htask]
  simp

theorem length_filter_done (deps done wave : List TaskId) (hdisj : ∀ t ∈ wave, t ∉ done) :
    (deps.filter (fun d => decide (d ∉ done ++ wave))).length +
        (deps.filter (fun d => decide (d ∈ wave))).length =
      (deps.filter (fun d => decide (d ∉ done))).length := by
  induction deps with
  | nil => rfl
  | cons d deps ih =>
    simp only [List.filter_cons, List.mem_append] at ih ⊢
    by_cases hw : d ∈ wave
    · simp only [hw, hdisj d hw, or_true, not_true_eq_false, not_false_eq_true, decide_false,
        decide_true, Bool.false_eq_true, if_false, if_true, List.length_cons]
      omega
    · by_cases hd : d ∈ done
      · simpa [hw, hd] using ih
      · simp only [hw, hd, or_self, not_false_eq_true, decide_true, decide_false,
          Bool.false_eq_true, if_false, if_true, List.length_cons]
        omega

theorem DegreesLeft.release (hu : plan.ids.Nodup) {done remaining wave : List TaskId}
    {inDegree : HashMap TaskId ℕ} (h : DegreesLeft plan done remaining inDegree)
    (hnd : wave.Nodup) (hdisj : ∀ t ∈ wave, t ∉ done) :
    DegreesLeft plan (done ++ wave) (dropWave remaining wave)
      (release (indexDependents plan.tasks) inDegree wave) := by
  intro task htask hrem
  have hsplit := length_filter_done task.deps done wave hdisj
  rw [degree_release_task hu _ hnd htask, h task htask (mem_dropWave.mp hrem).1]
  omega

theorem sortWaves_cases {order : IterOrder TaskId} {dependents : HashMap TaskId (List TaskId)}
    {remaining : List TaskId} {inDegree : HashMap TaskId ℕ} {waves : List (List TaskId)}
    (h : sortWaves order dependents remaining inDegree = .ok waves) :
    (remaining = [] ∧ waves = []) ∨
      ∃ rest, waves = nextWave order remaining inDegree :: rest ∧
        nextWave order remaining inDegree ≠ [] ∧
        sortWaves order dependents (dropWave remaining (nextWave order remaining inDegree))
          (release dependents inDegree (nextWave order remaining inDegree)) = .ok rest := by
  rw [sortWaves] at h
  by_cases hempty : remaining = []
  · rw [if_pos hempty] at h
    cases h
    exact .inl ⟨hempty, rfl⟩
  · rw [if_neg hempty] at h
    by_cases hwave : nextWave order remaining inDegree = []
    · simp only [hwave] at h
      cases h
    · simp only [hwave, dite_false] at h
      split at h
      · rename_i rest hrest
        cases h
        exact .inr ⟨rest, rfl, hwave, hrest⟩
      · cases h

theorem sortWaves_ok (hu : plan.ids.Nodup) (order : IterOrder TaskId) (waves : List (List TaskId))
    (done remaining : List TaskId) (inDegree : HashMap TaskId ℕ) (hnd : remaining.Nodup)
    (hdisj : ∀ t ∈ remaining, t ∉ done) (hdeg : DegreesLeft plan done remaining inDegree)
    (h : sortWaves order (indexDependents plan.tasks) remaining inDegree = .ok waves) :
    waves.flatten.Perm remaining ∧ (∀ wave ∈ waves, wave ≠ []) ∧ WavesFrom plan done waves := by
  induction waves generalizing done remaining inDegree with
  | nil =>
    rcases sortWaves_cases h with ⟨rfl, -⟩ | ⟨rest, hcons, -⟩
    · exact ⟨.nil, by simp, trivial⟩
    · cases hcons
  | cons wave rest ih =>
    rcases sortWaves_cases h with ⟨-, hnil⟩ | ⟨rest', hcons, hne, hrest⟩
    · cases hnil
    · obtain ⟨hwave, rfl⟩ := List.cons.inj hcons
      rw [← hwave] at hne hrest
      have hmem : ∀ t ∈ wave, t ∈ remaining ∧ degree inDegree t = 0 := fun t ht =>
        mem_nextWave.mp (hwave ▸ ht)
      have hwnd : wave.Nodup := hwave ▸ (order.nodup_arrange hnd).filter _
      have hwdisj : ∀ t ∈ wave, t ∉ done := fun t ht => hdisj t (hmem t ht).1
      have hstep := ih (done ++ wave) (dropWave remaining wave) _ (hnd.filter _)
        (fun t ht hin => by
          obtain ⟨hr, hw⟩ := mem_dropWave.mp ht
          rcases List.mem_append.mp hin with hd | hw'
          · exact hdisj t hr hd
          · exact hw hw')
        (hdeg.release hu hwnd hwdisj) hrest
      obtain ⟨hperm, hnonempty, hfrom⟩ := hstep
      refine ⟨?_, ?_, fun u hu' hid d hd => ?_, hfrom⟩
      · rw [List.flatten_cons]
        exact (hperm.append_left wave).trans (perm_dropWave hnd hwnd fun t ht => (hmem t ht).1)
      · intro w hw
        rcases List.mem_cons.mp hw with rfl | hw
        · exact hne
        · exact hnonempty w hw
      · obtain ⟨hrem, hzero⟩ := hmem _ hid
        rw [hdeg u hu' hrem, List.length_eq_zero_iff, List.filter_eq_nil_iff] at hzero
        simpa using hzero d hd

theorem topologicalSort_ok (hu : plan.ids.Nodup) {order : IterOrder TaskId}
    {waves : List (List TaskId)} (h : topologicalSort order plan.tasks = .ok waves) :
    waves.flatten.Perm plan.ids ∧ (∀ wave ∈ waves, wave ≠ []) ∧ WavesFrom plan [] waves := by
  have hdedup : (plan.tasks.map TaskNode.id).dedup = plan.ids := hu.dedup
  rw [topologicalSort, hdedup] at h
  exact sortWaves_ok hu order waves [] plan.ids _ hu (by simp) (DegreesLeft.start hu) h

theorem WavesFrom.closed {done : List TaskId} {waves : List (List TaskId)}
    (h : WavesFrom plan done waves) :
    ∀ task ∈ plan.tasks, task.id ∈ waves.flatten → ∀ d ∈ task.deps, d ∈ done ++ waves.flatten := by
  induction waves generalizing done with
  | nil => simp
  | cons wave waves ih =>
    obtain ⟨hfirst, hrest⟩ := h
    intro task htask hid d hd
    rw [List.flatten_cons] at hid ⊢
    rcases List.mem_append.mp hid with hw | hlater
    · exact List.mem_append_left _ (hfirst task htask hw d hd)
    · rw [← List.append_assoc]
      exact ih hrest task htask hlater d hd

theorem WavesFrom.acc {done : List TaskId} {waves : List (List TaskId)}
    (h : WavesFrom plan done waves)
    (hdone : ∀ t ∈ done, Acc (fun d t => plan.DependsOn t d) t) :
    ∀ t ∈ waves.flatten, Acc (fun d t => plan.DependsOn t d) t := by
  induction waves generalizing done with
  | nil => simp
  | cons wave waves ih =>
    obtain ⟨hfirst, hrest⟩ := h
    have hwave : ∀ t ∈ wave, Acc (fun d t => plan.DependsOn t d) t := by
      intro t ht
      refine Acc.intro t fun d hd => ?_
      obtain ⟨task, htask, rfl, hdep⟩ := hd
      exact hdone d (hfirst task htask ht d hdep)
    have hboth : ∀ t ∈ done ++ wave, Acc (fun d t => plan.DependsOn t d) t := by
      intro t ht
      rcases List.mem_append.mp ht with ht | ht
      · exact hdone t ht
      · exact hwave t ht
    intro t ht
    rw [List.flatten_cons] at ht
    rcases List.mem_append.mp ht with ht | ht
    · exact hwave t ht
    · exact ih hrest hboth t ht

/-- In terms of positions: what a task of the `i`-th wave depends on is done, or in a wave
before the `i`-th. -/
theorem WavesFrom.earlier {done : List TaskId} {waves : List (List TaskId)}
    (h : WavesFrom plan done waves) {i : ℕ} (hi : i < waves.length) {task : TaskNode}
    (htask : task ∈ plan.tasks) (hid : task.id ∈ waves[i]) {d : TaskId} (hd : d ∈ task.deps) :
    d ∈ done ∨ ∃ j, ∃ hj : j < i, d ∈ waves[j] := by
  induction waves generalizing done i with
  | nil => cases hi
  | cons wave waves ih =>
    obtain ⟨hfirst, hrest⟩ := h
    cases i with
    | zero => exact .inl (hfirst task htask hid d hd)
    | succ i =>
      rcases ih hrest (Nat.lt_of_succ_lt_succ hi) hid with hin | ⟨j, hj, hin⟩
      · rcases List.mem_append.mp hin with hdone | hwave
        · exact .inl hdone
        · exact .inr ⟨0, Nat.succ_pos i, hwave⟩
      · exact .inr ⟨j + 1, Nat.succ_lt_succ hj, hin⟩

theorem valid_of_topologicalSort (hu : plan.ids.Nodup) {order : IterOrder TaskId}
    {waves : List (List TaskId)} (h : topologicalSort order plan.tasks = .ok waves) :
    plan.Valid := by
  obtain ⟨hperm, -, hfrom⟩ := topologicalSort_ok hu h
  refine ⟨hu, fun task htask d hd => ?_, AcyclicRel.of_acc fun t d htd => ?_⟩
  · have hid : task.id ∈ waves.flatten := hperm.mem_iff.mpr (List.mem_map_of_mem htask)
    have hin := hfrom.closed task htask hid d hd
    rw [List.nil_append] at hin
    exact hperm.mem_iff.mp hin
  · obtain ⟨task, htask, rfl, -⟩ := htd
    have hid : task.id ∈ waves.flatten := hperm.mem_iff.mpr (List.mem_map_of_mem htask)
    exact hfrom.acc (by simp) _ hid

/-- **Validation and sorting decide the same question.**  `validate` accepts the plans with
distinct ids, known dependencies and no cycle, and the search for a cycle finds one exactly
when there is one.  An accepted plan is sorted into waves that hold every id once, with the
dependencies of a task in strictly earlier waves; a plan with distinct ids that has a cycle or
an unknown dependency is not sorted. -/
theorem validate_agrees_with_sort (plan : Plan) :
    (plan.validate = .ok () ↔
      plan.ids.Nodup ∧ (∀ task ∈ plan.tasks, ∀ d ∈ task.deps, d ∈ plan.ids) ∧
        AcyclicRel plan.DependsOn) ∧
    (plan.ids.Nodup →
      (plan.hasCycle = true ↔ ∃ t, Relation.TransGen plan.DependsOn t t)) ∧
    (plan.validate = .ok () → ∀ order : IterOrder TaskId, ∃ waves,
      topologicalSort order plan.tasks = .ok waves ∧
      waves.flatten.Perm plan.ids ∧ (∀ wave ∈ waves, wave ≠ []) ∧
      ∀ task ∈ plan.tasks, ∀ d ∈ task.deps, ∀ i, ∀ hi : i < waves.length,
        task.id ∈ waves[i] → ∃ j, ∃ hj : j < i, d ∈ waves[j]) ∧
    (plan.ids.Nodup →
      ((∃ t, Relation.TransGen plan.DependsOn t t) ∨
        ∃ task ∈ plan.tasks, ∃ d ∈ task.deps, d ∉ plan.ids) →
      ∀ order : IterOrder TaskId, ∃ e, topologicalSort order plan.tasks = .error e) := by
  refine ⟨?_, ?_, ?_, ?_⟩
  · rw [Plan.validate_iff]
    exact ⟨fun hv => ⟨hv.unique, hv.closed, hv.acyclic⟩, fun ⟨hu, hc, ha⟩ => ⟨hu, hc, ha⟩⟩
  · intro hu
    rw [Plan.hasCycle_iff hu, AcyclicRel]
    push Not
    rfl
  · intro hok order
    have hv := Plan.validate_ok hok
    obtain ⟨waves, hsort, -, -⟩ := topologicalSort_valid hv order
    obtain ⟨hperm, hne, hfrom⟩ := topologicalSort_ok hv.unique hsort
    refine ⟨waves, hsort, hperm, hne, fun task htask d hd i hi hid => ?_⟩
    exact (hfrom.earlier hi htask hid hd).resolve_left (by simp)
  · intro hu hbad order
    cases h : topologicalSort order plan.tasks with
    | error e => exact ⟨e, rfl⟩
    | ok waves =>
      have hv := valid_of_topologicalSort hu h
      rcases hbad with ⟨t, ht⟩ | ⟨task, htask, d, hd, hno⟩
      · exact absurd ht (hv.acyclic t)
      · exact absurd (hv.closed task htask d hd) hno

end Mowis.Orchestration
