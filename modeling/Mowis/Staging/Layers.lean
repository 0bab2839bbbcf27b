import Mowis.Staging.Stages
import Mowis.Lib.Execution

/-!
# The stages are layers

On a graph whose dependencies are known and acyclic, `compute_execution_stages` meets none of
its failing branches, and each stage holds exactly the tasks that are not in the stages before
it but whose dependencies all are.
-/

namespace Mowis.Staging

open Mowis.Lib

variable {builder : DependencyGraphBuilder}

def edges (tasks : List TaskNode) : List (String × String) :=
  tasks.flatMap (fun task => task.dependsOn.map (fun d => (task.taskId, d)))

/-- The tables lack exactly the dependencies in `rest`. -/
structure Linked (builder : DependencyGraphBuilder) (rest : List (String × String))
    (tables : Tables) : Prop where
  known : ∀ e ∈ rest, e.1 ∈ builder.tasks.keys ∧ e.2 ∈ builder.tasks.keys
  degree : ∀ t ∈ builder.tasks.keys, ∃ n, tables.inDegree.lookup t = some n ∧
    n + (rest.filter (fun e => decide (e.1 = t))).length = (builder.depsOf t).length
  others : ∀ t ∉ builder.tasks.keys, tables.inDegree.lookup t = none
  listed : ∀ d ∈ builder.tasks.keys, ∃ l, tables.graph.lookup d = some l ∧
    ∀ t, l.count t + rest.count (t, d) = (builder.depsOf t).count d

theorem Linked.link {t d : String} {rest : List (String × String)} {tables : Tables}
    (h : Linked builder ((t, d) :: rest) tables) :
    ∃ tables', link t tables d = .ok tables' ∧ Linked builder rest tables' := by
  obtain ⟨ht, hd⟩ := h.known (t, d) List.mem_cons_self
  obtain ⟨n, hn, hcount⟩ := h.degree t ht
  obtain ⟨l, hl, hlist⟩ := h.listed d hd
  refine ⟨⟨tables.inDegree.insert t (n + 1), tables.graph.insert d (l ++ [t])⟩, ?_, ?_⟩
  · rw [Staging.link, hl]
    simp only [hn]
  · refine ⟨fun e he => h.known e (List.mem_cons_of_mem _ he), fun u hu => ?_, fun u hu => ?_,
      fun v hv => ?_⟩
    · by_cases hut : u = t
      · subst hut
        refine ⟨n + 1, AList.lookup_insert _, ?_⟩
        rw [List.filter_cons_of_pos (by simp), List.length_cons] at hcount
        omega
      · obtain ⟨m, hm, hmcount⟩ := h.degree u hu
        refine ⟨m, (AList.lookup_insert_ne hut).trans hm, ?_⟩
        rwa [List.filter_cons_of_neg (by simpa using Ne.symm hut)] at hmcount
    · have hut : u ≠ t := fun he => hu (he ▸ ht)
      exact (AList.lookup_insert_ne hut).trans (h.others u hu)
    · by_cases hvd : v = d
      · subst hvd
        refine ⟨l ++ [t], AList.lookup_insert _, fun u => ?_⟩
        have hu := hlist u
        rw [List.count_cons] at hu
        rw [List.count_append, List.count_singleton, ← hu]
        by_cases hut : t = u
        · simp only [hut, beq_self_eq_true, if_true]
          omega
        · have hpair : ((t, v) == (u, v)) = false := by simp [hut]
          simp only [hpair, beq_eq_false_iff_ne.mpr hut, Bool.false_eq_true, if_false]
          omega
      · obtain ⟨l', hl', hlist'⟩ := h.listed v hv
        refine ⟨l', (AList.lookup_insert_ne hvd).trans hl', fun u => ?_⟩
        rw [← hlist' u, List.count_cons_of_ne]
        intro he
        exact hvd (Prod.mk.inj he).2.symm

theorem linkTasks_ok {tasks : List TaskNode} {tables : Tables}
    (h : Linked builder (edges tasks) tables) :
    ∃ tables', linkTasks tasks tables = .ok tables' ∧ Linked builder [] tables' := by
  refine foldlM_ok (I := fun tasks tables => Linked builder (edges tasks) tables)
    (fun task rest tables h => ?_) tasks h
  refine foldlM_ok
    (I := fun ds tables => Linked builder (ds.map (fun d => (task.taskId, d)) ++ edges rest) tables)
    (fun d ds tables h => ?_) task.dependsOn h
  exact Linked.link h

theorem lookup_initTables {V : Type} (v : V) (keys : List String) (t : String) :
    (keys.foldl (fun m t => m.insert t v) (∅ : HashMap String V)).lookup t =
      if t ∈ keys then some v else none := by
  rw [HashMap.lookup_foldl_insert (fun t => t) (fun _ => v)]
  by_cases ht : t ∈ keys
  · have hsome : (keys.reverse.find? (fun x => decide (x = t))).isSome := by
      rw [List.find?_isSome]
      exact ⟨t, List.mem_reverse.mpr ht, decide_eq_true rfl⟩
    obtain ⟨x, hx⟩ := Option.isSome_iff_exists.mp hsome
    rw [hx, if_pos ht]
    rfl
  · have hnone : keys.reverse.find? (fun x => decide (x = t)) = none := by
      refine List.find?_eq_none.mpr fun x hx => ?_
      have hne : x ≠ t := fun he => ht (he ▸ List.mem_reverse.mp hx)
      simpa using hne
    rw [hnone, if_neg ht]
    rfl

theorem map_taskId_values (order : IterOrder String) :
    (builder.values order).map TaskNode.taskId = builder.keys order := by
  have hall : ∀ ts : List String, (∀ t ∈ ts, t ∈ builder.tasks.keys) →
      (ts.filterMap builder.tasks.lookup).map TaskNode.taskId = ts := by
    intro ts hts
    induction ts with
    | nil => rfl
    | cons t rest ih =>
      obtain ⟨task, hf⟩ := DependencyGraphBuilder.exists_lookup (hts t List.mem_cons_self)
      have hcons : (t :: rest).filterMap builder.tasks.lookup =
          task :: rest.filterMap builder.tasks.lookup := List.filterMap_cons_some hf
      rw [hcons, List.map_cons, builder.keyed t task hf,
        ih fun u hu => hts u (List.mem_cons_of_mem _ hu)]
  exact hall _ fun t ht => (order.mem_arrange _ t).mp ht

theorem sum_values (order : IterOrder String) (t : String) (f : List String → ℕ) (hf : f [] = 0) :
    ((builder.values order).map
      (fun task => if task.taskId = t then f task.dependsOn else 0)).sum = f (builder.depsOf t) := by
  have hkeys : (builder.values order).map TaskNode.taskId = builder.keys order :=
    map_taskId_values order
  have hnodup : ((builder.values order).map TaskNode.taskId).Nodup := by
    rw [hkeys]
    exact order.nodup_arrange builder.tasks.keys_nodup
  by_cases ht : t ∈ builder.keys order
  · obtain ⟨task, hl⟩ :=
      DependencyGraphBuilder.exists_lookup ((order.mem_arrange _ t).mp ht)
    have hmem : task ∈ builder.values order := List.mem_filterMap.mpr ⟨t, ht, hl⟩
    have hid := builder.keyed t task hl
    subst hid
    rw [HashMap.sum_ite_key TaskNode.taskId (fun task => f task.dependsOn) hnodup hmem,
      DependencyGraphBuilder.depsOf_lookup hl]
  · have hnone : builder.depsOf t = [] := by
      refine List.eq_nil_iff_forall_not_mem.mpr fun d hd => ht ?_
      exact (order.mem_arrange _ t).mpr (DependencyGraphBuilder.mem_keys_of_depsOf hd)
    rw [hnone, hf]
    refine List.sum_eq_zero fun n hn => ?_
    obtain ⟨task, htask, rfl⟩ := List.mem_map.mp hn
    have hne : task.taskId ≠ t := fun he => ht (hkeys ▸ he ▸ List.mem_map_of_mem htask)
    exact if_neg hne

theorem linked_initTables (order : IterOrder String)
    (hclosed : ∀ t d, builder.DependsOn t d → d ∈ builder.tasks.keys) :
    Linked builder (edges (builder.values order)) (initTables (builder.keys order)) := by
  have hmem : ∀ t, t ∈ builder.keys order ↔ t ∈ builder.tasks.keys := order.mem_arrange _
  refine ⟨fun e he => ?_, fun t ht => ⟨0, ?_, ?_⟩, fun t ht => ?_, fun d hd => ⟨[], ?_, fun t => ?_⟩⟩
  · obtain ⟨task, htask, he⟩ := List.mem_flatMap.mp he
    obtain ⟨d, hd, rfl⟩ := List.mem_map.mp he
    obtain ⟨t, ht, hl⟩ := List.mem_filterMap.mp htask
    have hid := builder.keyed t task hl
    subst hid
    refine ⟨(hmem _).mp ht, hclosed task.taskId d ?_⟩
    rwa [DependencyGraphBuilder.DependsOn, DependencyGraphBuilder.depsOf_lookup hl]
  · exact (lookup_initTables 0 _ t).trans (if_pos ((hmem t).mpr ht))
  · rw [Nat.zero_add, edges, List.filter_flatMap, List.length_flatMap, ← sum_values order t
      List.length rfl]
    congr 2
    funext task
    by_cases hid : task.taskId = t
    · simp [List.filter_map, Function.comp_def, hid]
    · simp [List.filter_map, Function.comp_def, hid]
  · exact (lookup_initTables 0 _ t).trans (if_neg fun h => ht ((hmem t).mp h))
  · exact (lookup_initTables [] _ d).trans (if_pos ((hmem d).mpr hd))
  · rw [List.count_nil, Nat.zero_add, edges, List.count_flatMap, ← sum_values order t
      (List.count d) rfl]
    congr 2
    funext task
    by_cases hid : task.taskId = t
    · subst hid
      rw [Function.comp, if_pos rfl, List.count_map_of_injective]
      exact fun _ _ he => (Prod.mk.inj he).2
    · rw [Function.comp, if_neg hid, List.count_eq_zero]
      intro hin
      obtain ⟨_, -, he⟩ := List.mem_map.mp hin
      exact hid (Prod.mk.inj he).1

def Complete (builder : DependencyGraphBuilder) (graph : HashMap String (List String)) : Prop :=
  ∀ d ∈ builder.tasks.keys, ∃ l, graph.lookup d = some l ∧
    ∀ t, l.count t = (builder.depsOf t).count d

theorem mem_keys_of_count {d : String} {l : List String}
    (hcount : ∀ t, l.count t = (builder.depsOf t).count d) {t : String} (ht : t ∈ l) :
    t ∈ builder.tasks.keys := by
  have hpos := List.count_pos_iff.mpr ht
  rw [hcount t] at hpos
  exact DependencyGraphBuilder.mem_keys_of_depsOf (List.count_pos_iff.mp hpos)

/-- With `done` taken from the queue and `pending` still to be decremented, an in-degree counts
the dependencies that are not done and the decrements to come; the tasks of in-degree zero are
those that are done or in the queue, once each. -/
structure Progress (builder : DependencyGraphBuilder) (done pending : List String) (st : Kahn) :
    Prop where
  known : ∀ t ∈ pending, t ∈ builder.tasks.keys
  nodup : (done ++ st.queue).Nodup
  degree : ∀ t ∈ builder.tasks.keys, st.inDegree.lookup t =
    some (((builder.depsOf t).filter (fun d => decide (d ∉ done))).length + pending.count t)
  ready : ∀ t, t ∈ done ++ st.queue ↔ t ∈ builder.tasks.keys ∧ st.inDegree.lookup t = some 0

variable {done pending : List String} {st : Kahn}

theorem Progress.decrement {t : String} (h : Progress builder done (t :: pending) st) :
    ∃ st', decrement st t = .ok st' ∧ Progress builder done pending st' ∧
      ∃ new, st'.queue = st.queue ++ new := by
  have ht := h.known t List.mem_cons_self
  have hdegree := h.degree t ht
  rw [List.count_cons_self, ← Nat.add_assoc] at hdegree
  set n := ((builder.depsOf t).filter (fun d => decide (d ∉ done))).length + pending.count t
    with hn
  -- a task that is decremented is neither done nor in the queue yet
  have hnew : t ∉ done ++ st.queue := by
    intro hin
    have hzero := ((h.ready t).mp hin).2
    rw [hdegree] at hzero
    cases hzero
  have hother : ∀ u, u ≠ t → (st.inDegree.insert t n).lookup u = st.inDegree.lookup u :=
    fun u hu => AList.lookup_insert_ne hu
  refine ⟨⟨st.inDegree.insert t n, if n = 0 then st.queue ++ [t] else st.queue⟩, ?_, ?_, ?_⟩
  · rw [Staging.decrement, hdegree]
  · refine ⟨fun u hu => h.known u (List.mem_cons_of_mem _ hu), ?_, fun u hu => ?_, fun u => ?_⟩
    · show (done ++ if n = 0 then st.queue ++ [t] else st.queue).Nodup
      split
      · rw [← List.append_assoc]
        exact h.nodup.append (List.nodup_singleton t) (by simpa using hnew)
      · exact h.nodup
    · by_cases hut : u = t
      · subst hut
        exact AList.lookup_insert _
      · rw [hother u hut, h.degree u hu, List.count_cons_of_ne (Ne.symm hut)]
    · show u ∈ done ++ (if n = 0 then st.queue ++ [t] else st.queue) ↔ _
      by_cases hut : u = t
      · subst hut
        have hlook : (st.inDegree.insert u n).lookup u = some n := AList.lookup_insert _
        rw [hlook]
        by_cases hzero : n = 0
        · simp [hzero, ht]
        · simpa [hzero] using hnew
      · rw [hother u hut, ← h.ready u]
        by_cases hzero : n = 0
        · simp [hzero, hut]
        · rw [if_neg hzero]
  · by_cases hzero : n = 0
    · exact ⟨[t], if_pos hzero⟩
    · exact ⟨[], (if_neg hzero).trans (List.append_nil _).symm⟩

theorem Progress.decrements (h : Progress builder done pending st) :
    ∃ st', pending.foldlM Staging.decrement st = .ok st' ∧ Progress builder done [] st' ∧
      ∃ new, st'.queue = st.queue ++ new := by
  obtain ⟨st', hloop, hend⟩ := foldlM_ok
    (I := fun pending st' => Progress builder done pending st' ∧
      ∃ new, st'.queue = st.queue ++ new)
    (fun t rest st₁ h => by
      obtain ⟨hprog, new, hnew⟩ := h
      obtain ⟨st₂, hdec, hprog₂, new₂, hnew₂⟩ := hprog.decrement
      refine ⟨st₂, hdec, hprog₂, new ++ new₂, ?_⟩
      rw [hnew₂, hnew, List.append_assoc])
    pending ⟨h, [], (List.append_nil _).symm⟩
  exact ⟨st', hloop, hend⟩

theorem length_filter_snoc (deps : List String) (t : String) (ht : t ∉ done) :
    (deps.filter (fun d => decide (d ∉ done ++ [t]))).length + deps.count t =
      (deps.filter (fun d => decide (d ∉ done))).length := by
  induction deps with
  | nil => rfl
  | cons d deps ih =>
    simp only [List.filter_cons, List.mem_append, List.mem_singleton] at ih ⊢
    by_cases hdt : d = t
    · subst hdt
      rw [List.count_cons_self]
      simp only [ht, or_true, not_true_eq_false, not_false_eq_true, decide_false, decide_true,
        Bool.false_eq_true, if_false, if_true, List.length_cons]
      omega
    · rw [List.count_cons_of_ne hdt]
      by_cases hd : d ∈ done
      · simpa [hd, hdt] using ih
      · simp only [hd, hdt, or_self, not_false_eq_true, decide_true, if_true, List.length_cons]
        omega

theorem Progress.pop {graph : HashMap String (List String)} (hgraph : Complete builder graph)
    {t : String} {queue : List String} (h : Progress builder done [] st)
    (hqueue : st.queue = t :: queue) :
    ∃ l st', graph.lookup t = some l ∧
      l.foldlM Staging.decrement ⟨st.inDegree, queue⟩ = .ok st' ∧
      Progress builder (done ++ [t]) [] st' ∧ ∃ new, st'.queue = queue ++ new := by
  have hshift : done ++ st.queue = done ++ [t] ++ queue := by
    rw [hqueue, List.append_assoc, List.singleton_append]
  have hkey : t ∈ builder.tasks.keys := ((h.ready t).mp (by simp [hqueue])).1
  have hnot : t ∉ done := by
    intro hin
    have hnd := h.nodup
    rw [hqueue] at hnd
    exact (List.nodup_append.mp hnd).2.2 t hin t List.mem_cons_self rfl
  obtain ⟨l, hl, hcount⟩ := hgraph t hkey
  have hstart : Progress builder (done ++ [t]) l ⟨st.inDegree, queue⟩ := by
    refine ⟨fun u hu => mem_keys_of_count hcount hu, hshift ▸ h.nodup,
      fun u hu => ?_, fun u => ?_⟩
    · rw [hcount u, length_filter_snoc (builder.depsOf u) t hnot]
      exact h.degree u hu
    · show u ∈ done ++ [t] ++ queue ↔ _
      rw [← hshift]
      exact h.ready u
  obtain ⟨st', hloop, hprog, hnew⟩ := hstart.decrements
  exact ⟨l, st', hl, hloop, hprog, hnew⟩

theorem Progress.stage {graph : HashMap String (List String)} (hgraph : Complete builder graph)
    (stage : List String) (currentStage rest : List String) (h : Progress builder done [] st)
    (hqueue : st.queue = stage ++ rest) :
    ∃ st', stageLoop graph stage.length st currentStage = .ok (currentStage ++ stage, st') ∧
      Progress builder (done ++ stage) [] st' := by
  induction stage generalizing done st currentStage rest with
  | nil =>
    refine ⟨st, ?_, ?_⟩
    · rw [List.append_nil]
      rfl
    · rwa [List.append_nil]
  | cons t stage ih =>
    rw [List.cons_append] at hqueue
    obtain ⟨l, st₁, hl, hloop, hprog, new, hnew⟩ := h.pop hgraph hqueue
    obtain ⟨st', hstage, hend⟩ := ih (currentStage ++ [t]) (rest ++ new) hprog
      (by rw [hnew, List.append_assoc])
    refine ⟨st', ?_, ?_⟩
    · rw [List.length_cons, stageLoop, hqueue]
      simp only [hl, hloop]
      rw [hstage, List.append_assoc, List.singleton_append]
    · rwa [List.append_assoc, List.singleton_append] at hend

/-- Each stage holds, once, the tasks that are not done before it but whose dependencies are;
in the end everything is done. -/
def Staged (builder : DependencyGraphBuilder) : List String → List (List String) → Prop
  | done, [] => ∀ t ∈ builder.tasks.keys, t ∈ done
  | done, stage :: stages =>
    stage ≠ [] ∧ stage.Nodup ∧
      (∀ t, t ∈ stage ↔ t ∈ builder.tasks.keys ∧ t ∉ done ∧ ∀ d ∈ builder.depsOf t, d ∈ done) ∧
      Staged builder (done ++ stage) stages

theorem Progress.mem_queue (h : Progress builder done [] st) {t : String} :
    t ∈ st.queue ↔
      t ∈ builder.tasks.keys ∧ t ∉ done ∧ ∀ d ∈ builder.depsOf t, d ∈ done := by
  have hzero : t ∈ builder.tasks.keys →
      (st.inDegree.lookup t = some 0 ↔ ∀ d ∈ builder.depsOf t, d ∈ done) := by
    intro ht
    rw [h.degree t ht, List.count_nil, Nat.add_zero, Option.some_inj, List.length_eq_zero_iff,
      List.filter_eq_nil_iff]
    simp
  have hready := h.ready t
  rw [List.mem_append] at hready
  constructor
  · intro hq
    obtain ⟨ht, hl⟩ := hready.mp (.inr hq)
    refine ⟨ht, fun hd => ?_, (hzero ht).mp hl⟩
    exact (List.nodup_append.mp h.nodup).2.2 t hd t hq rfl
  · rintro ⟨ht, hnot, hdeps⟩
    exact (hready.mpr ⟨ht, (hzero ht).mpr hdeps⟩).resolve_left hnot

theorem Progress.all_done (hac : AcyclicRel builder.DependsOn)
    (hclosed : ∀ t d, builder.DependsOn t d → d ∈ builder.tasks.keys)
    (h : Progress builder done [] st) (hqueue : st.queue = []) :
    ∀ t ∈ builder.tasks.keys, t ∈ done := by
  by_contra hno
  push Not at hno
  obtain ⟨t, ht, hnot⟩ := hno
  set left := builder.tasks.keys.filter (fun t => decide (t ∉ done)) with hleft
  have hne : left ≠ [] := List.ne_nil_of_mem (List.mem_filter.mpr ⟨ht, by simpa using hnot⟩)
  -- a task that is left, none of whose dependencies is left, would be in the queue
  obtain ⟨m, hm, hmin⟩ := hac.exists_minimal hne
  obtain ⟨hmkey, hmnot⟩ := List.mem_filter.mp hm
  have hin : m ∈ st.queue := by
    refine h.mem_queue.mpr ⟨hmkey, of_decide_eq_true hmnot, fun d hd => ?_⟩
    by_contra hd'
    exact hmin d (List.mem_filter.mpr ⟨hclosed m d hd, decide_eq_true hd'⟩) hd
  rw [hqueue] at hin
  cases hin

theorem stagesLoop_ok {graph : HashMap String (List String)} (hgraph : Complete builder graph)
    (hac : AcyclicRel builder.DependsOn)
    (hclosed : ∀ t d, builder.DependsOn t d → d ∈ builder.tasks.keys)
    (h : Progress builder done [] st) :
    ∃ stages, stagesLoop graph st = .ok stages ∧ Staged builder done stages := by
  induction hn : HashMap.weight st.inDegree + st.queue.length using Nat.strongRecOn
    generalizing done st with
  | ind n ih =>
    by_cases hqueue : st.queue = []
    · refine ⟨[], ?_, h.all_done hac hclosed hqueue⟩
      rw [stagesLoop, dif_pos hqueue]
    · obtain ⟨st', hstage, hprog⟩ :=
        h.stage hgraph st.queue [] [] (List.append_nil _).symm
      rw [List.nil_append] at hstage
      have hless := stageLoop_measure hstage
      have hpos := List.length_pos_of_ne_nil hqueue
      obtain ⟨stages, hloop, hstaged⟩ := ih _ (by omega) hprog rfl
      refine ⟨st.queue :: stages, ?_, hqueue, ?_, fun t => h.mem_queue, hstaged⟩
      · rw [stagesLoop, dif_neg hqueue]
        split
        · rename_i e he
          rw [hstage] at he
          cases he
        · rename_i stage st₁ hok
          rw [hstage] at hok
          cases hok
          rw [hloop]
      · exact (List.nodup_append.mp h.nodup).2.1

theorem Staged.perm {stages : List (List String)} (h : Staged builder done stages)
    (hnd : done.Nodup) (hsub : ∀ t ∈ done, t ∈ builder.tasks.keys) :
    (done ++ stages.flatten).Perm builder.tasks.keys := by
  induction stages generalizing done with
  | nil =>
    rw [List.flatten_nil, List.append_nil]
    exact (List.perm_ext_iff_of_nodup hnd builder.tasks.keys_nodup).mpr
      fun t => ⟨hsub t, h t⟩
  | cons stage stages ih =>
    obtain ⟨-, hsnd, hmem, hrest⟩ := h
    have hdisj : ∀ t ∈ stage, t ∉ done := fun t ht => ((hmem t).mp ht).2.1
    rw [List.flatten_cons, ← List.append_assoc]
    refine ih hrest ?_ fun t ht => ?_
    · refine List.nodup_append.mpr ⟨hnd, hsnd, fun a ha b hb hab => ?_⟩
      exact hdisj b hb (hab ▸ ha)
    · rcases List.mem_append.mp ht with ht | ht
      · exact hsub t ht
      · exact ((hmem t).mp ht).1

theorem Staged.nonempty {stages : List (List String)} (h : Staged builder done stages) :
    ∀ stage ∈ stages, stage ≠ [] := by
  induction stages generalizing done with
  | nil => simp
  | cons stage stages ih =>
    obtain ⟨hne, -, -, hrest⟩ := h
    intro s hs
    rcases List.mem_cons.mp hs with rfl | hs
    · exact hne
    · exact ih hrest s hs

theorem Staged.earlier {stages : List (List String)} (h : Staged builder done stages) {i : ℕ}
    {t d : String} (ht : t ∈ stages.getD i []) (hd : builder.DependsOn t d) :
    d ∈ done ∨ ∃ j < i, d ∈ stages.getD j [] := by
  induction stages generalizing done i with
  | nil => simp at ht
  | cons stage stages ih =>
    obtain ⟨-, -, hmem, hrest⟩ := h
    cases i with
    | zero => exact .inl (((hmem t).mp ht).2.2 d hd)
    | succ i =>
      rcases ih hrest ht with hin | ⟨j, hj, hin⟩
      · rcases List.mem_append.mp hin with hdone | hstage
        · exact .inl hdone
        · exact .inr ⟨0, Nat.succ_pos i, hstage⟩
      · exact .inr ⟨j + 1, Nat.succ_lt_succ hj, hin⟩

theorem Staged.waits {stages : List (List String)} (h : Staged builder done stages) {i : ℕ}
    {t : String} (ht : t ∈ stages.getD (i + 1) []) :
    ∃ d, builder.DependsOn t d ∧ d ∈ stages.getD i [] := by
  induction stages generalizing done i with
  | nil => simp at ht
  | cons stage stages ih =>
    obtain ⟨-, -, hmem, hrest⟩ := h
    cases i with
    | succ i => exact ih hrest ht
    | zero =>
      cases stages with
      | nil => simp at ht
      | cons next stages =>
        obtain ⟨hkey, hnot, hdeps⟩ := (hrest.2.2.1 t).mp ht
        rw [List.mem_append, not_or] at hnot
        -- otherwise the task would have been in the stage before
        by_contra hno
        push Not at hno
        refine hnot.2 ((hmem t).mpr ⟨hkey, hnot.1, fun d hd => ?_⟩)
        exact (List.mem_append.mp (hdeps d hd)).resolve_right (hno d hd)

theorem Staged.isGreatest {stages : List (List String)} (h : Staged builder [] stages) {i : ℕ}
    {t : String} (ht : t ∈ stages.getD i []) :
    IsGreatest {n | Chain builder.DependsOn n t} i :=
  @isGreatest_chain_of_levels _ _ (fun i t => t ∈ stages.getD i [])
    (fun _ _ _ ha hab => (h.earlier ha hab).resolve_left List.not_mem_nil)
    (fun _ _ ha => h.waits ha) i t ht

theorem Progress.start {tables : Tables} (h : Linked builder [] tables)
    (order : IterOrder String) :
    Progress builder [] [] ⟨tables.inDegree, initialQueue order tables.inDegree⟩ := by
  have hlookup : ∀ t ∈ builder.tasks.keys,
      tables.inDegree.lookup t = some (builder.depsOf t).length := by
    intro t ht
    obtain ⟨n, hn, hcount⟩ := h.degree t ht
    rw [hn, ← hcount]
    rfl
  refine ⟨by simp, ?_, fun t ht => ?_, fun t => ?_⟩
  · exact (order.nodup_arrange tables.inDegree.keys_nodup).filter _
  · simpa using hlookup t ht
  · show t ∈ [] ++ initialQueue order tables.inDegree ↔ _
    rw [List.nil_append, initialQueue, List.mem_filter, order.mem_arrange, decide_eq_true_iff]
    refine and_congr_left fun hzero => ?_
    constructor
    · intro _
      by_contra hno
      rw [h.others t hno] at hzero
      cases hzero
    · intro _
      exact AList.mem_keys.mp (AList.lookup_isSome.mp (by rw [hzero]; rfl))

theorem computeExecutionStages_ok (orders : Orders)
    (hclosed : ∀ t d, builder.DependsOn t d → d ∈ builder.tasks.keys)
    (hac : AcyclicRel builder.DependsOn) :
    ∃ stages, builder.computeExecutionStages orders = .ok stages ∧ Staged builder [] stages := by
  obtain ⟨tables, htables, hlinked⟩ := linkTasks_ok (linked_initTables orders.tasks hclosed)
  have hgraph : Complete builder tables.graph := by
    intro d hd
    obtain ⟨l, hl, hcount⟩ := hlinked.listed d hd
    exact ⟨l, hl, fun t => by simpa using hcount t⟩
  obtain ⟨stages, hloop, hstaged⟩ :=
    stagesLoop_ok hgraph hac hclosed (Progress.start hlinked orders.degrees)
  refine ⟨stages, ?_, hstaged⟩
  have hlen := (hstaged.perm List.nodup_nil (by simp)).length_eq
  rw [List.nil_append] at hlen
  rw [DependencyGraphBuilder.computeExecutionStages, htables]
  simp only [hloop]
  rw [if_neg (not_not.mpr hlen)]

end Mowis.Staging
