import Mowis.Lib.Dag
import Mowis.Scheduling.Model

/-!
# What `Scheduler::new` builds

The four tables of a fresh scheduler, read off the task list: the task and the
counter stored under an id are those of the last task with that id, the
dependents of `d` are listed once for every occurrence of `d` in a dependency
list, and the ready queues hold the tasks without dependencies in plan order.

Nothing is checked at construction: ids may repeat, and dependencies may be
unknown or cyclic.  `UniqueIds` is the one property of a plan under which the
tables determine each other.
-/

namespace Mowis.Scheduling

open Mowis.Lib

namespace TaskGraph

variable (g : TaskGraph)

def ids : List TaskId := g.tasks.map Task.id

def UniqueIds : Prop := g.ids.Nodup

instance : Decidable g.UniqueIds := inferInstanceAs (Decidable (List.Nodup _))

def Closed : Prop := ∀ task ∈ g.tasks, ∀ d ∈ task.deps, d ∈ g.ids

instance : Decidable g.Closed := inferInstanceAs (Decidable (∀ task ∈ _, ∀ d ∈ _, _))

/-- `d` is listed as a dependency of `t`. -/
def DependsOn (t d : TaskId) : Prop := ∃ task ∈ g.tasks, task.id = t ∧ d ∈ task.deps

def Acyclic : Prop := AcyclicRel g.DependsOn

end TaskGraph

theorem lookup_buildTaskMap (g : TaskGraph) (t : TaskId) :
    (buildTaskMap g).lookup t = g.tasks.reverse.find? (fun task => decide (task.id = t)) := by
  have h := HashMap.lookup_foldl_insert Task.id (fun task => task) g.tasks
    (∅ : HashMap TaskId Task) t
  rw [buildTaskMap, h]
  simp

theorem lookup_buildDepCounter (g : TaskGraph) (t : TaskId) :
    (buildDepCounter g).lookup t = ((buildTaskMap g).lookup t).map (fun task => task.deps.length) := by
  have h := HashMap.lookup_foldl_insert Task.id (fun task => task.deps.length) g.tasks
    (∅ : HashMap TaskId ℕ) t
  rw [lookup_buildTaskMap, buildDepCounter, h]
  simp

theorem mem_of_lookup_buildTaskMap {g : TaskGraph} {t : TaskId} {task : Task}
    (h : (buildTaskMap g).lookup t = some task) : task ∈ g.tasks ∧ task.id = t := by
  rw [lookup_buildTaskMap] at h
  have hmem := List.mem_of_find?_eq_some h
  have hid := List.find?_some h
  exact ⟨List.mem_reverse.mp hmem, by simpa using hid⟩

theorem exists_lookup_buildTaskMap {g : TaskGraph} {t : TaskId} (h : t ∈ g.ids) :
    ∃ task, (buildTaskMap g).lookup t = some task := by
  obtain ⟨task, htask, hid⟩ := List.mem_map.mp h
  rw [lookup_buildTaskMap, ← Option.isSome_iff_exists, List.find?_isSome]
  exact ⟨task, List.mem_reverse.mpr htask, by simpa using hid⟩

theorem mem_ids_iff_lookup {g : TaskGraph} {t : TaskId} :
    t ∈ g.ids ↔ ∃ task, (buildTaskMap g).lookup t = some task := by
  constructor
  · exact exists_lookup_buildTaskMap
  · rintro ⟨task, h⟩
    obtain ⟨hmem, hid⟩ := mem_of_lookup_buildTaskMap h
    exact List.mem_map.mpr ⟨task, hmem, hid⟩

theorem lookup_of_mem {g : TaskGraph} (hu : g.UniqueIds) {task : Task} (h : task ∈ g.tasks) :
    (buildTaskMap g).lookup task.id = some task :=
  HashMap.lookup_foldl_insert_of_mem Task.id (fun task => task) hu ∅ h

theorem buildDependents_eq (g : TaskGraph) :
    buildDependents g = HashMap.reverseIndex Task.id Task.deps g.tasks := rfl

theorem mem_bucket_buildDependents {g : TaskGraph} {d t : TaskId} :
    t ∈ HashMap.bucket (buildDependents g) d ↔ g.DependsOn t d :=
  HashMap.mem_bucket_reverseIndex

/-- The dependents of `d` list a task at least as often as its stored dependency
list names `d`. -/
theorem count_deps_le_dependents {g : TaskGraph} {t : TaskId} {task : Task}
    (h : (buildTaskMap g).lookup t = some task) (d : TaskId) :
    task.deps.count d ≤ (HashMap.bucket (buildDependents g) d).count t := by
  obtain ⟨hmem, rfl⟩ := mem_of_lookup_buildTaskMap h
  rw [buildDependents_eq]
  exact HashMap.count_refs_le_reverseIndex Task.id Task.deps hmem d

theorem count_dependents {g : TaskGraph} (hu : g.UniqueIds) {task : Task} (h : task ∈ g.tasks)
    (d : TaskId) :
    (HashMap.bucket (buildDependents g) d).count task.id = task.deps.count d := by
  rw [buildDependents_eq]
  exact HashMap.count_reverseIndex Task.id Task.deps hu h d

theorem bucket_buildReadyQueues (g : TaskGraph) (hints : HashMap TaskId SandboxName)
    (sb : SandboxName) :
    HashMap.bucket (buildReadyQueues g hints) sb =
      ((g.tasks.filter (fun task => task.deps.isEmpty)).filter
        (fun task => decide (sandboxFor hints task.id = sb))).map Task.id := by
  rw [buildReadyQueues, HashMap.bucket_foldl_entryPush (fun task => sandboxFor hints task.id) Task.id,
    HashMap.bucket_empty, List.nil_append]

theorem mem_bucket_buildReadyQueues {g : TaskGraph} {hints : HashMap TaskId SandboxName}
    {sb : SandboxName} {t : TaskId} :
    t ∈ HashMap.bucket (buildReadyQueues g hints) sb ↔
      sandboxFor hints t = sb ∧ ∃ task ∈ g.tasks, task.id = t ∧ task.deps = [] := by
  rw [bucket_buildReadyQueues, List.mem_map]
  constructor
  · rintro ⟨task, htask, rfl⟩
    simp only [List.mem_filter, List.isEmpty_iff, decide_eq_true_eq] at htask
    exact ⟨htask.2, task, htask.1.1, rfl, htask.1.2⟩
  · rintro ⟨hsb, task, htask, rfl, hdeps⟩
    refine ⟨task, ?_, rfl⟩
    simp only [List.mem_filter, List.isEmpty_iff, decide_eq_true_eq]
    exact ⟨⟨htask, hdeps⟩, hsb⟩

theorem nodup_bucket_buildReadyQueues {g : TaskGraph} (hu : g.UniqueIds)
    (hints : HashMap TaskId SandboxName) (sb : SandboxName) :
    (HashMap.bucket (buildReadyQueues g hints) sb).Nodup := by
  rw [bucket_buildReadyQueues]
  exact hu.sublist ((List.filter_sublist.trans List.filter_sublist).map Task.id)

end Mowis.Scheduling
