import Mowis.Orchestration.Validate

/-!
# `topological_sort`

The sort of the wave executor: in-degrees and dependents are counted once, and each
wave takes the remaining tasks of in-degree zero, in the order in which the hash set
is walked.
-/

namespace Mowis.Orchestration

open Mowis.Lib

/-- `in_degree.get(id).copied().unwrap_or(0)`. -/
def degree (inDegree : HashMap TaskId ℕ) (t : TaskId) : ℕ := (inDegree.lookup t).getD 0

/-- `*in_degree.entry(id).or_insert(0) += n`. -/
def raise (inDegree : HashMap TaskId ℕ) (t : TaskId) (n : ℕ) : HashMap TaskId ℕ :=
  inDegree.insert t (degree inDegree t + n)

/-- The first loop of `topological_sort`, for the in-degrees. -/
def countDegrees (tasks : List TaskNode) : HashMap TaskId ℕ :=
  tasks.foldl (fun m task => task.deps.foldl (fun m _ => raise m task.id 1) (raise m task.id 0)) ∅

/-- The first loop of `topological_sort`, for the dependents. -/
def indexDependents (tasks : List TaskNode) : HashMap TaskId (List TaskId) :=
  tasks.foldl (fun m task => task.deps.foldl (fun m dep => HashMap.entryPush m dep task.id) m) ∅

/-- `saturating_sub(1)` on the in-degree of a known task. -/
def lower (inDegree : HashMap TaskId ℕ) (t : TaskId) : HashMap TaskId ℕ :=
  match inDegree.lookup t with
  | some n => inDegree.insert t (n - 1)
  | none => inDegree

def release (dependents : HashMap TaskId (List TaskId)) (inDegree : HashMap TaskId ℕ)
    (wave : List TaskId) : HashMap TaskId ℕ :=
  wave.foldl (fun m t => (HashMap.bucket dependents t).foldl lower m) inDegree

def nextWave (order : IterOrder TaskId) (remaining : List TaskId) (inDegree : HashMap TaskId ℕ) :
    List TaskId :=
  (order.arrange remaining).filter (fun t => decide (degree inDegree t = 0))

theorem mem_nextWave {order : IterOrder TaskId} {remaining : List TaskId}
    {inDegree : HashMap TaskId ℕ} {t : TaskId} :
    t ∈ nextWave order remaining inDegree ↔ t ∈ remaining ∧ degree inDegree t = 0 := by
  simp [nextWave]

def dropWave (remaining wave : List TaskId) : List TaskId :=
  remaining.filter (fun t => decide (t ∉ wave))

theorem mem_dropWave {remaining wave : List TaskId} {t : TaskId} :
    t ∈ dropWave remaining wave ↔ t ∈ remaining ∧ t ∉ wave := by
  simp [dropWave]

def sortWaves (order : IterOrder TaskId) (dependents : HashMap TaskId (List TaskId))
    (remaining : List TaskId) (inDegree : HashMap TaskId ℕ) : Except String (List (List TaskId)) :=
  if remaining = [] then .ok []
  else
    let wave := nextWave order remaining inDegree
    if _hw : wave = [] then .error "cycle detected in task graph"
    else
      match sortWaves order dependents (dropWave remaining wave)
        (release dependents inDegree wave) with
      | .ok waves => .ok (wave :: waves)
      | .error e => .error e
termination_by remaining.length
decreasing_by
  obtain ⟨t, ht⟩ := List.exists_mem_of_ne_nil _ _hw
  exact List.length_filter_lt_length_iff_exists.mpr ⟨t, (mem_nextWave.mp ht).1, by simpa using ht⟩

def topologicalSort (order : IterOrder TaskId) (tasks : List TaskNode) :
    Except String (List (List TaskId)) :=
  sortWaves order (indexDependents tasks) (tasks.map TaskNode.id).dedup (countDegrees tasks)

theorem degree_insert (m : HashMap TaskId ℕ) (t u : TaskId) (n : ℕ) :
    degree (m.insert t n) u = if u = t then n else degree m u := by
  rw [degree, HashMap.lookup_insert_eq_ite]
  split <;> rfl

theorem degree_lower (m : HashMap TaskId ℕ) (t u : TaskId) :
    degree (lower m t) u = degree m u - if t = u then 1 else 0 := by
  rw [lower]
  cases hl : m.lookup t with
  | none =>
    by_cases htu : t = u
    · subst htu
      simp [degree, hl]
    · simp [htu]
  | some n =>
    rw [degree_insert]
    by_cases htu : t = u
    · subst htu
      simp [degree, hl]
    · simp [htu, Ne.symm htu]

theorem degree_foldl_lower (ts : List TaskId) (m : HashMap TaskId ℕ) (u : TaskId) :
    degree (ts.foldl lower m) u = degree m u - ts.count u := by
  induction ts generalizing m with
  | nil => rfl
  | cons t ts ih =>
    rw [List.foldl_cons, ih, degree_lower, Nat.sub_sub, List.count_cons, Nat.add_comm]
    by_cases htu : t = u
    · simp [htu]
    · simp [htu]

theorem degree_release (dependents : HashMap TaskId (List TaskId)) (m : HashMap TaskId ℕ)
    (wave : List TaskId) (u : TaskId) :
    degree (release dependents m wave) u =
      degree m u - (wave.map (fun t => (HashMap.bucket dependents t).count u)).sum := by
  have hflat : release dependents m wave = (wave.flatMap (HashMap.bucket dependents)).foldl lower m := by
    rw [List.foldl_flatMap]
    rfl
  rw [hflat, degree_foldl_lower, List.count_flatMap]
  rfl

theorem degree_raise (m : HashMap TaskId ℕ) (t u : TaskId) (n : ℕ) :
    degree (raise m t n) u = degree m u + if t = u then n else 0 := by
  rw [raise, degree_insert]
  by_cases htu : t = u
  · simp [htu]
  · simp [htu, Ne.symm htu]

theorem degree_foldl_raise (deps : List TaskId) (m : HashMap TaskId ℕ) (t u : TaskId) :
    degree (deps.foldl (fun m _ => raise m t 1) m) u =
      degree m u + if t = u then deps.length else 0 := by
  induction deps generalizing m with
  | nil => simp
  | cons d deps ih =>
    rw [List.foldl_cons, ih, degree_raise, List.length_cons]
    split <;> omega

theorem degree_countDegrees {tasks : List TaskNode} (hu : (tasks.map TaskNode.id).Nodup)
    {task : TaskNode} (h : task ∈ tasks) : degree (countDegrees tasks) task.id = task.deps.length := by
  have hsum : ∀ (ts : List TaskNode) (m : HashMap TaskId ℕ) (u : TaskId),
      degree (ts.foldl (fun m task =>
        task.deps.foldl (fun m _ => raise m task.id 1) (raise m task.id 0)) m) u =
      degree m u + (ts.map (fun task => if task.id = u then task.deps.length else 0)).sum := by
    intro ts
    induction ts with
    | nil => simp
    | cons x xs ih =>
      intro m u
      rw [List.foldl_cons, ih, degree_foldl_raise, degree_raise, ite_self, Nat.add_zero,
        List.map_cons, List.sum_cons, Nat.add_assoc]
  rw [countDegrees, hsum, HashMap.sum_ite_key TaskNode.id (fun task => task.deps.length) hu h]
  exact Nat.zero_add _

/-- In each wave, the dependencies of a task lie in `done` or in an earlier wave. -/
def WavesFrom (plan : Plan) : List TaskId → List (List TaskId) → Prop
  | _, [] => True
  | done, wave :: waves =>
    (∀ task ∈ plan.tasks, task.id ∈ wave → ∀ d ∈ task.deps, d ∈ done) ∧
      WavesFrom plan (done ++ wave) waves

def DegreesExact (plan : Plan) (remaining : List TaskId) (inDegree : HashMap TaskId ℕ) : Prop :=
  ∀ task ∈ plan.tasks, task.id ∈ remaining →
    degree inDegree task.id = (task.deps.filter (fun d => decide (d ∈ remaining))).length

theorem sum_count_eq (deps wave : List TaskId) (hnd : wave.Nodup) :
    (wave.map (fun t => deps.count t)).sum =
      (deps.filter (fun d => decide (d ∈ wave))).length := by
  induction deps with
  | nil => simp
  | cons d deps ih =>
    have hsplit : ∀ ts : List TaskId, (ts.map (fun t => (d :: deps).count t)).sum =
        (ts.map (fun t => deps.count t)).sum + ts.count d := by
      intro ts
      induction ts with
      | nil => rfl
      | cons t ts ih =>
        rw [List.map_cons, List.sum_cons, ih, List.map_cons, List.sum_cons, List.count_cons,
          List.count_cons]
        by_cases hdt : d = t
        · simp only [hdt, beq_self_eq_true, if_true]
          omega
        · simp only [beq_eq_false_iff_ne.mpr hdt, beq_eq_false_iff_ne.mpr (Ne.symm hdt),
            Bool.false_eq_true, if_false]
          omega
    rw [hsplit, ih, List.filter_cons]
    split
    · rename_i hd
      rw [List.length_cons, List.count_eq_one_of_mem hnd (by simpa using hd)]
    · rename_i hd
      rw [List.count_eq_zero_of_not_mem (by simpa using hd), Nat.add_zero]

theorem length_filter_dropWave (deps remaining wave : List TaskId)
    (hsub : ∀ t ∈ wave, t ∈ remaining) :
    (deps.filter (fun d => decide (d ∈ dropWave remaining wave))).length +
        (deps.filter (fun d => decide (d ∈ wave))).length =
      (deps.filter (fun d => decide (d ∈ remaining))).length := by
  induction deps with
  | nil => rfl
  | cons d deps ih =>
    simp only [List.filter_cons, mem_dropWave] at ih ⊢
    by_cases hw : d ∈ wave
    · simp only [hw, hsub d hw, not_true_eq_false, and_false, decide_false, decide_true,
        Bool.false_eq_true, if_false, if_true, List.length_cons]
      omega
    · by_cases hr : d ∈ remaining
      · simp only [hw, hr, not_false_eq_true, and_self, decide_false, decide_true,
          Bool.false_eq_true, if_false, if_true, List.length_cons]
        omega
      · simpa [hw, hr] using ih

variable {plan : Plan}

theorem degree_release_task (hu : plan.ids.Nodup) (inDegree : HashMap TaskId ℕ)
    {wave : List TaskId} (hnd : wave.Nodup) {task : TaskNode} (htask : task ∈ plan.tasks) :
    degree (release (indexDependents plan.tasks) inDegree wave) task.id =
      degree inDegree task.id - (task.deps.filter (fun d => decide (d ∈ wave))).length := by
  have hlisted : wave.map (fun t => (HashMap.bucket (indexDependents plan.tasks) t).count task.id) =
      wave.map (fun t => task.deps.count t) := by
    refine List.map_congr_left fun t _ => ?_
    exact HashMap.count_reverseIndex TaskNode.id TaskNode.deps hu htask t
  rw [degree_release, hlisted, sum_count_eq _ _ hnd]

theorem DegreesExact.release (hv : plan.Valid) {remaining wave : List TaskId}
    {inDegree : HashMap TaskId ℕ} (h : DegreesExact plan remaining inDegree) (hnd : wave.Nodup)
    (hsub : ∀ t ∈ wave, t ∈ remaining) :
    DegreesExact plan (dropWave remaining wave)
      (release (indexDependents plan.tasks) inDegree wave) := by
  intro task htask hrem
  have hsplit := length_filter_dropWave task.deps remaining wave hsub
  rw [degree_release_task hv.unique _ hnd htask, h task htask (mem_dropWave.mp hrem).1]
  omega

theorem perm_dropWave {remaining wave : List TaskId} (hnd : remaining.Nodup) (hwnd : wave.Nodup)
    (hsub : ∀ t ∈ wave, t ∈ remaining) : (wave ++ dropWave remaining wave).Perm remaining := by
  have hfilter : wave.Perm (remaining.filter (fun t => decide (t ∈ wave))) :=
    (List.perm_ext_iff_of_nodup hwnd (hnd.filter _)).mpr fun t => by
      simp only [List.mem_filter, decide_eq_true_eq]
      exact ⟨fun ht => ⟨hsub t ht, ht⟩, fun ht => ht.2⟩
  refine (hfilter.append_right _).trans ?_
  have hsplit := List.filter_append_perm (fun t => decide (t ∈ wave)) remaining
  simpa [dropWave] using hsplit

theorem sortWaves_valid (hv : plan.Valid) (order : IterOrder TaskId) (done remaining : List TaskId)
    (inDegree : HashMap TaskId ℕ) (hnd : remaining.Nodup) (hsub : ∀ t ∈ remaining, t ∈ plan.ids)
    (hall : ∀ t ∈ plan.ids, t ∈ done ∨ t ∈ remaining)
    (hdeg : DegreesExact plan remaining inDegree) :
    ∃ waves, sortWaves order (indexDependents plan.tasks) remaining inDegree = .ok waves ∧
      waves.flatten.Perm remaining ∧ WavesFrom plan done waves := by
  induction hn : remaining.length using Nat.strongRecOn generalizing done remaining inDegree with
  | ind n ih =>
    by_cases hempty : remaining = []
    · refine ⟨[], ?_, by simp [hempty], trivial⟩
      rw [sortWaves, if_pos hempty]
    · -- some remaining task depends on no other one
      obtain ⟨m, hm, hmin⟩ := hv.acyclic.exists_minimal hempty
      obtain ⟨task, htask, rfl⟩ := List.mem_map.mp (hsub m hm)
      have hzero : degree inDegree task.id = 0 := by
        rw [hdeg task htask hm, List.length_eq_zero_iff, List.filter_eq_nil_iff]
        intro d hd hrem
        exact hmin d (of_decide_eq_true hrem) ⟨task, htask, rfl, hd⟩
      have hwave : nextWave order remaining inDegree ≠ [] :=
        List.ne_nil_of_mem (mem_nextWave.mpr ⟨hm, hzero⟩)
      set wave := nextWave order remaining inDegree with hwdef
      have hwnd : wave.Nodup := (order.nodup_arrange hnd).filter _
      have hwsub : ∀ t ∈ wave, t ∈ remaining := fun t ht => (mem_nextWave.mp ht).1
      have hless : (dropWave remaining wave).length < n := by
        rw [← hn]
        exact List.length_filter_lt_length_iff_exists.mpr
          ⟨task.id, hm, by simpa using mem_nextWave.mpr ⟨hm, hzero⟩⟩
      obtain ⟨waves, hsort, hperm, hfrom⟩ := ih _ hless (done ++ wave) (dropWave remaining wave)
        (release (indexDependents plan.tasks) inDegree wave) (hnd.filter _)
        (fun t ht => hsub t (mem_dropWave.mp ht).1)
        (fun t ht => by
          rcases hall t ht with hd | hr
          · exact .inl (List.mem_append_left _ hd)
          · by_cases hw : t ∈ wave
            · exact .inl (List.mem_append_right _ hw)
            · exact .inr (mem_dropWave.mpr ⟨hr, hw⟩))
        (hdeg.release hv hwnd hwsub) rfl
      refine ⟨wave :: waves, ?_, ?_, ?_, hfrom⟩
      · rw [sortWaves, if_neg hempty]
        simp only [← hwdef]
        rw [dif_neg hwave, hsort]
      · rw [List.flatten_cons]
        exact (hperm.append_left wave).trans (perm_dropWave hnd hwnd hwsub)
      · intro u hu hid d hd
        have hrem := hwsub _ hid
        have hz := (mem_nextWave.mp hid).2
        rw [hdeg u hu hrem, List.length_eq_zero_iff, List.filter_eq_nil_iff] at hz
        have hno : d ∉ remaining := fun hr => hz d hd (decide_eq_true hr)
        exact (hall d (hv.closed u hu d hd)).resolve_right hno

theorem topologicalSort_valid (hv : plan.Valid) (order : IterOrder TaskId) :
    ∃ waves, topologicalSort order plan.tasks = .ok waves ∧ waves.flatten.Perm plan.ids ∧
      WavesFrom plan [] waves := by
  have hdedup : (plan.tasks.map TaskNode.id).dedup = plan.ids := hv.unique.dedup
  rw [topologicalSort, hdedup]
  refine sortWaves_valid hv order [] plan.ids _ hv.unique (fun t ht => ht) (fun t ht => .inr ht) ?_
  intro task htask _
  rw [degree_countDegrees hv.unique htask]
  congr 1
  exact (List.filter_eq_self.mpr fun d hd => decide_eq_true (hv.closed task htask d hd)).symm

end Mowis.Orchestration
