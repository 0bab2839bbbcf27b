import Mowis.Staging.Builder

/-!
# `compute_execution_stages`

Kahn's algorithm, stage by stage: the in-degrees and the dependents of every task are
tabulated, and a stage takes what is in the queue at its start.  Every `unwrap`, the
subtraction from an in-degree and the final check have their failing branch here.
-/

namespace Mowis.Staging

open Mowis.Lib

/-- How `build` ends when it does not return a graph. -/
inductive Failure where
  | graph (e : GraphError)
  | panic
  deriving DecidableEq, Repr

/-- `in_degree` and `graph`. -/
structure Tables where
  inDegree : HashMap String ℕ
  graph : HashMap String (List String)

def initTables (keys : List String) : Tables where
  inDegree := keys.foldl (fun m t => m.insert t 0) ∅
  graph := keys.foldl (fun m t => m.insert t []) ∅

def link (taskId : String) (tables : Tables) (dep : String) : Except Failure Tables :=
  match tables.graph.lookup dep with
  | none => .error .panic
  | some dependents =>
    match tables.inDegree.lookup taskId with
    | none => .error .panic
    | some degree =>
      .ok ⟨tables.inDegree.insert taskId (degree + 1),
        tables.graph.insert dep (dependents ++ [taskId])⟩

/-- The loop that builds the reverse dependency graph. -/
def linkTasks (tasks : List TaskNode) (tables : Tables) : Except Failure Tables :=
  tasks.foldlM (fun tables task => task.dependsOn.foldlM (link task.taskId) tables) tables

/-- The state of Kahn's algorithm. -/
structure Kahn where
  inDegree : HashMap String ℕ
  queue : List String

/-- `*degree -= 1`, and `push_back` when nothing is left. -/
def decrement (st : Kahn) (dependent : String) : Except Failure Kahn :=
  match st.inDegree.lookup dependent with
  | none => .error .panic
  | some 0 => .error .panic
  | some (degree + 1) =>
    .ok ⟨st.inDegree.insert dependent degree,
      if degree = 0 then st.queue ++ [dependent] else st.queue⟩

/-- The inner loop: `stageSize` tasks are taken from the queue. -/
def stageLoop (graph : HashMap String (List String)) :
    ℕ → Kahn → List String → Except Failure (List String × Kahn)
  | 0, st, currentStage => .ok (currentStage, st)
  | stageSize + 1, st, currentStage =>
    match st.queue with
    | [] => .error .panic
    | taskId :: queue =>
      match graph.lookup taskId with
      | none => .error .panic
      | some dependents =>
        match dependents.foldlM decrement ⟨st.inDegree, queue⟩ with
        | .error e => .error e
        | .ok st' => stageLoop graph stageSize st' (currentStage ++ [taskId])

theorem decrement_measure {st st' : Kahn} {u : String} (h : decrement st u = .ok st') :
    HashMap.weight st'.inDegree + st'.queue.length ≤
      HashMap.weight st.inDegree + st.queue.length := by
  rw [decrement] at h
  split at h
  · cases h
  · cases h
  · rename_i degree hl
    cases h
    have hweight := HashMap.weight_insert st.inDegree u degree
    rw [hl] at hweight
    have hlen : (if degree = 0 then st.queue ++ [u] else st.queue).length ≤
        st.queue.length + 1 := by
      split <;> simp
    simp only [Option.getD_some] at hweight
    show HashMap.weight (st.inDegree.insert u degree) +
      (if degree = 0 then st.queue ++ [u] else st.queue).length ≤ _
    omega

theorem decrements_measure {dependents : List String} {st st' : Kahn}
    (h : dependents.foldlM decrement st = .ok st') :
    HashMap.weight st'.inDegree + st'.queue.length ≤
      HashMap.weight st.inDegree + st.queue.length := by
  induction dependents generalizing st with
  | nil =>
    cases h
    exact le_refl _
  | cons u rest ih =>
    rw [List.foldlM_cons] at h
    cases hu : decrement st u with
    | error e =>
      rw [hu] at h
      cases h
    | ok st₁ =>
      rw [hu] at h
      exact (ih h).trans (decrement_measure hu)

theorem stageLoop_measure {graph : HashMap String (List String)} {stageSize : ℕ} {st : Kahn}
    {currentStage stage : List String} {st' : Kahn}
    (h : stageLoop graph stageSize st currentStage = .ok (stage, st')) :
    HashMap.weight st'.inDegree + st'.queue.length + stageSize ≤
      HashMap.weight st.inDegree + st.queue.length := by
  induction stageSize generalizing st currentStage with
  | zero =>
    cases h
    exact le_refl _
  | succ stageSize ih =>
    rw [stageLoop] at h
    split at h
    · cases h
    · rename_i t queue hqueue
      split at h
      · cases h
      · split at h
        · cases h
        · rename_i st₁ hst₁
          have hrest := ih h
          have hfirst := decrements_measure hst₁
          rw [hqueue, List.length_cons]
          simp only at hfirst
          omega

def stagesLoop (graph : HashMap String (List String)) (st : Kahn) :
    Except Failure (List (List String)) :=
  if _hq : st.queue = [] then .ok []
  else
    match _hs : stageLoop graph st.queue.length st [] with
    | .error e => .error e
    | .ok (stage, st') =>
      match stagesLoop graph st' with
      | .error e => .error e
      | .ok stages => .ok (stage :: stages)
termination_by HashMap.weight st.inDegree + st.queue.length
decreasing_by
  have hmeasure := stageLoop_measure _hs
  have hpos := List.length_pos_of_ne_nil _hq
  omega

/-- The iteration orders of `tasks` and of `in_degree`. -/
structure Orders where
  tasks : IterOrder String
  degrees : IterOrder String

def initialQueue (order : IterOrder String) (inDegree : HashMap String ℕ) : List String :=
  (order.arrange inDegree.keys).filter (fun t => decide (inDegree.lookup t = some 0))

structure DependencyGraph where
  tasks : HashMap String TaskNode
  executionOrder : List (List String)

namespace DependencyGraphBuilder

variable (builder : DependencyGraphBuilder)

def computeExecutionStages (orders : Orders) : Except Failure (List (List String)) :=
  match linkTasks (builder.values orders.tasks) (initTables (builder.keys orders.tasks)) with
  | .error e => .error e
  | .ok tables =>
    match stagesLoop tables.graph
      ⟨tables.inDegree, initialQueue orders.degrees tables.inDegree⟩ with
    | .error e => .error e
    | .ok stages =>
      if stages.flatten.length ≠ builder.tasks.keys.length then
        .error (.graph (.cyclicDependency "Unable to schedule all tasks"))
      else .ok stages

def build (orders : Orders) : Except Failure DependencyGraph :=
  match builder.checkCycles orders.tasks with
  | .error e => .error (.graph e)
  | .ok () =>
    match builder.validateDependencies orders.tasks with
    | .error e => .error (.graph e)
    | .ok () =>
      match builder.computeExecutionStages orders with
      | .error e => .error e
      | .ok stages => .ok ⟨builder.tasks, stages⟩

end DependencyGraphBuilder

end Mowis.Staging
