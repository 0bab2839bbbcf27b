import Mowis.Staging.Layers

/-!
# `DependencyGraphBuilder::build`

A task graph with distinct ids, added task by task and built.
-/

namespace Mowis.Staging

open Mowis.Lib

namespace DependencyGraphBuilder

variable {builder : DependencyGraphBuilder}

theorem build_cases (builder : DependencyGraphBuilder) (orders : Orders) :
    (∃ stages, builder.build orders = .ok ⟨builder.tasks, stages⟩ ∧ Staged builder [] stages ∧
      (∀ t d, builder.DependsOn t d → d ∈ builder.tasks.keys) ∧ AcyclicRel builder.DependsOn) ∨
    ∃ e, builder.build orders = .error (.graph e) ∧
      (builder.checkCycles orders.tasks = .error e ∧ ¬ AcyclicRel builder.DependsOn ∨
        builder.checkCycles orders.tasks = .ok () ∧
          builder.validateDependencies orders.tasks = .error e ∧
          ¬ ∀ t d, builder.DependsOn t d → d ∈ builder.tasks.keys) := by
  have hcycles : builder.checkCycles orders.tasks = .ok () ↔ AcyclicRel builder.DependsOn :=
    checkCycles_ok_iff orders.tasks
  have hknown : builder.validateDependencies orders.tasks = .ok () ↔
      ∀ t d, builder.DependsOn t d → d ∈ builder.tasks.keys :=
    validateDependencies_ok_iff orders.tasks
  cases hc : builder.checkCycles orders.tasks with
  | error e =>
    have hno : ¬ AcyclicRel builder.DependsOn := by
      rw [← hcycles, hc]
      intro h
      cases h
    exact .inr ⟨e, by rw [build, hc], .inl ⟨rfl, hno⟩⟩
  | ok _ =>
    cases hv : builder.validateDependencies orders.tasks with
    | error e =>
      have hno : ¬ ∀ t d, builder.DependsOn t d → d ∈ builder.tasks.keys := by
        rw [← hknown, hv]
        intro h
        cases h
      refine .inr ⟨e, ?_, .inr ⟨rfl, rfl, hno⟩⟩
      rw [build, hc]
      simp only [hv]
    | ok _ =>
      have hac := hcycles.mp hc
      have hclosed := hknown.mp hv
      obtain ⟨stages, hstages, hstaged⟩ := computeExecutionStages_ok orders hclosed hac
      refine .inl ⟨stages, ?_, hstaged, hclosed, hac⟩
      rw [build, hc]
      simp only [hv, hstages]

def ofTasks (tasks : List TaskNode) : DependencyGraphBuilder :=
  tasks.foldl (fun builder task => builder.addTask task.taskId task.teamType task.dependsOn) new

theorem tasks_ofTasks (tasks : List TaskNode) :
    (ofTasks tasks).tasks = tasks.foldl (fun m task => m.insert task.taskId task) ∅ := by
  have hfold : ∀ builder : DependencyGraphBuilder,
      (tasks.foldl (fun builder task =>
        builder.addTask task.taskId task.teamType task.dependsOn) builder).tasks =
      tasks.foldl (fun m task => m.insert task.taskId task) builder.tasks := by
    induction tasks with
    | nil => intro _; rfl
    | cons task rest ih =>
      intro builder
      rw [List.foldl_cons, List.foldl_cons, ih]
      rfl
  exact hfold new

theorem lookup_ofTasks {tasks : List TaskNode} (hu : (tasks.map TaskNode.taskId).Nodup)
    {task : TaskNode} (h : task ∈ tasks) :
    (ofTasks tasks).tasks.lookup task.taskId = some task := by
  rw [tasks_ofTasks]
  exact HashMap.lookup_foldl_insert_of_mem TaskNode.taskId (fun task => task) hu ∅ h

theorem mem_of_lookup_ofTasks {tasks : List TaskNode} {t : String} {task : TaskNode}
    (h : (ofTasks tasks).tasks.lookup t = some task) : task ∈ tasks ∧ task.taskId = t := by
  refine ⟨?_, (ofTasks tasks).keyed t task h⟩
  rw [tasks_ofTasks, HashMap.lookup_foldl_insert TaskNode.taskId (fun task => task)] at h
  simp only [AList.lookup_empty, Option.or_none, Option.map_id'] at h
  exact List.mem_reverse.mp (List.mem_of_find?_eq_some h)

theorem keys_ofTasks {tasks : List TaskNode} (hu : (tasks.map TaskNode.taskId).Nodup) :
    (ofTasks tasks).tasks.keys.Perm (tasks.map TaskNode.taskId) := by
  refine (List.perm_ext_iff_of_nodup (ofTasks tasks).tasks.keys_nodup hu).mpr fun t => ?_
  constructor
  · intro ht
    obtain ⟨task, hl⟩ := exists_lookup ht
    obtain ⟨hmem, hid⟩ := mem_of_lookup_ofTasks hl
    exact List.mem_map.mpr ⟨task, hmem, hid⟩
  · intro ht
    obtain ⟨task, hmem, rfl⟩ := List.mem_map.mp ht
    exact AList.mem_keys.mp (AList.lookup_isSome.mp (by rw [lookup_ofTasks hu hmem]; rfl))

end DependencyGraphBuilder

/-- `d` is listed as a dependency of `t` in the task graph. -/
def DependsOn (tasks : List TaskNode) (t d : String) : Prop :=
  ∃ task ∈ tasks, task.taskId = t ∧ d ∈ task.dependsOn

theorem dependsOn_ofTasks {tasks : List TaskNode} (hu : (tasks.map TaskNode.taskId).Nodup) :
    (DependencyGraphBuilder.ofTasks tasks).DependsOn = DependsOn tasks := by
  funext t d
  refine propext ⟨fun h => ?_, ?_⟩
  · obtain ⟨task, hl⟩ :=
      DependencyGraphBuilder.exists_lookup (DependencyGraphBuilder.mem_keys_of_depsOf h)
    obtain ⟨hmem, hid⟩ := DependencyGraphBuilder.mem_of_lookup_ofTasks hl
    rw [DependencyGraphBuilder.DependsOn, DependencyGraphBuilder.depsOf_lookup hl] at h
    exact ⟨task, hmem, hid, h⟩
  · rintro ⟨task, hmem, rfl, hd⟩
    have hl := DependencyGraphBuilder.lookup_ofTasks hu hmem
    rwa [DependencyGraphBuilder.DependsOn, DependencyGraphBuilder.depsOf_lookup hl]

def Executable (tasks : List TaskNode) : Prop :=
  (∀ task ∈ tasks, ∀ d ∈ task.dependsOn, d ∈ tasks.map TaskNode.taskId) ∧
    AcyclicRel (DependsOn tasks)

/-- **`build` decides executability and computes the layers.**  A task graph with distinct ids
is built exactly when every dependency names a task and none is cyclic.  Then the stages hold
every id once, dependencies lie in strictly earlier stages and the number of a task's stage is
the length of its longest chain of dependencies.  Otherwise the error is that of one of the two
checks; no later failure is reached. -/
theorem build_stages (tasks : List TaskNode) (hu : (tasks.map TaskNode.taskId).Nodup)
    (orders : Orders) :
    ((∃ graph, (DependencyGraphBuilder.ofTasks tasks).build orders = .ok graph) ↔
      Executable tasks) ∧
    (∀ graph, (DependencyGraphBuilder.ofTasks tasks).build orders = .ok graph →
      graph.tasks = (DependencyGraphBuilder.ofTasks tasks).tasks ∧
      graph.executionOrder.flatten.Perm (tasks.map TaskNode.taskId) ∧
      (∀ stage ∈ graph.executionOrder, stage ≠ []) ∧
      (∀ i t d, t ∈ graph.executionOrder.getD i [] → DependsOn tasks t d →
        ∃ j < i, d ∈ graph.executionOrder.getD j []) ∧
      ∀ i t, t ∈ graph.executionOrder.getD i [] →
        IsGreatest {n | Chain (DependsOn tasks) n t} i) ∧
    (∀ failure, (DependencyGraphBuilder.ofTasks tasks).build orders = .error failure →
      ∃ e, failure = .graph e ∧
        ((DependencyGraphBuilder.ofTasks tasks).checkCycles orders.tasks = .error e ∨
          (DependencyGraphBuilder.ofTasks tasks).checkCycles orders.tasks = .ok () ∧
            (DependencyGraphBuilder.ofTasks tasks).validateDependencies orders.tasks =
              .error e)) := by
  have hkeys := DependencyGraphBuilder.keys_ofTasks hu
  have hrel := dependsOn_ofTasks hu
  have hclosed : (∀ task ∈ tasks, ∀ d ∈ task.dependsOn, d ∈ tasks.map TaskNode.taskId) ↔
      ∀ t d, DependsOn tasks t d → d ∈ (DependencyGraphBuilder.ofTasks tasks).tasks.keys := by
    constructor
    · rintro h t d ⟨task, hmem, -, hd⟩
      exact hkeys.mem_iff.mpr (h task hmem d hd)
    · intro h task hmem d hd
      exact hkeys.mem_iff.mp (h task.taskId d ⟨task, hmem, rfl, hd⟩)
  rcases (DependencyGraphBuilder.ofTasks tasks).build_cases orders with
    ⟨stages, hbuild, hstaged, hknown, hac⟩ | ⟨e, hbuild, hwhy⟩
  · rw [hrel] at hknown hac
    rw [hbuild]
    refine ⟨⟨fun _ => ⟨hclosed.mpr hknown, hac⟩, fun _ => ⟨_, rfl⟩⟩, ?_, fun _ h => by cases h⟩
    rintro graph ⟨⟩
    refine ⟨rfl, ?_, ?_, fun i t d ht hd => ?_, fun i t ht => ?_⟩
    · exact (hstaged.perm List.nodup_nil (by simp)).trans hkeys
    · exact hstaged.nonempty
    · exact (hstaged.earlier ht (hrel ▸ hd)).resolve_left List.not_mem_nil
    · exact hrel ▸ hstaged.isGreatest ht
  · rw [hrel] at hwhy
    rw [hbuild]
    refine ⟨⟨fun ⟨_, h⟩ => (by cases h), fun hex => ?_⟩, fun _ h => (by cases h), ?_⟩
    · rcases hwhy with ⟨-, hno⟩ | ⟨-, -, hno⟩
      · exact absurd hex.2 hno
      · exact absurd (hclosed.mp hex.1) hno
    · rintro failure ⟨⟩
      refine ⟨e, rfl, ?_⟩
      rcases hwhy with ⟨hc, -⟩ | ⟨hc, hv, -⟩
      · exact .inl hc
      · exact .inr ⟨hc, hv⟩

def diamond : List TaskNode :=
  [⟨"deploy", ["api", "ui", "api"], "ops"⟩, ⟨"api", ["model"], "backend"⟩,
    ⟨"ui", ["model"], "frontend"⟩, ⟨"model", [], "backend"⟩]

theorem build_stages_diamond :
    (∃ graph, (DependencyGraphBuilder.ofTasks diamond).build ⟨.stored, .reversed⟩ = .ok graph) ↔
      Executable diamond :=
  (build_stages diamond (by decide) ⟨.stored, .reversed⟩).1

example : ((DependencyGraphBuilder.ofTasks diamond).computeExecutionStages
    ⟨.stored, .reversed⟩).toOption = some [["model"], ["ui", "api"], ["deploy"]] := by
  decide +kernel

end Mowis.Staging
