import Mowis.Orchestration.Plan
import Mowis.Lib.CycleSearch

/-!
# `Plan::validate`

The checks of `Plan::validate`: distinct ids, known dependencies, and no cycle.  The
cycle check is a depth-first search with a visited set and a set of tasks on the
stack, both threaded through the calls; a call returns with the visited set it was
given or a larger one, which is part of its type because the recursion depends on it.
-/

namespace Mowis.Orchestration

open Mowis.Lib

structure Dfs where
  visited : Finset TaskId
  inStack : Finset TaskId
  deriving DecidableEq

def Dfs.empty : Dfs := ⟨∅, ∅⟩

namespace Plan

variable (plan : Plan)

def unvisited (st : Dfs) : ℕ := (plan.ids.filter (fun t => decide (t ∉ st.visited))).length

theorem unvisited_mono (plan : Plan) {st st' : Dfs} (h : st.visited ⊆ st'.visited) :
    plan.unvisited st' ≤ plan.unvisited st := Lib.unvisited_mono plan.ids h

theorem unvisited_insert {plan : Plan} {st : Dfs} {t : TaskId} (inStack : Finset TaskId)
    (hid : t ∈ plan.ids) (hnew : t ∉ st.visited) :
    plan.unvisited ⟨insert t st.visited, inStack⟩ < plan.unvisited st :=
  Lib.unvisited_insert hid hnew

mutual

/-- `dfs_cycle`: whether a task on the stack is met again, and the two sets after the call. -/
def dfsCycle (t : TaskId) (st : Dfs) : {r : Bool × Dfs // st.visited ⊆ r.2.visited} :=
  if t ∈ st.inStack then ⟨(true, st), Finset.Subset.refl _⟩
  else if _hnew : t ∈ st.visited then ⟨(false, st), Finset.Subset.refl _⟩
  else
    match _hf : plan.findTask t with
    | none =>
      ⟨(false, ⟨insert t st.visited, (insert t st.inStack).erase t⟩), Finset.subset_insert _ _⟩
    | some task =>
      match dfsDeps task.deps ⟨insert t st.visited, insert t st.inStack⟩ with
      | ⟨(true, st₂), hsub⟩ => ⟨(true, st₂), (Finset.subset_insert _ _).trans hsub⟩
      | ⟨(false, st₂), hsub⟩ =>
        ⟨(false, ⟨st₂.visited, st₂.inStack.erase t⟩), (Finset.subset_insert _ _).trans hsub⟩
termination_by (plan.unvisited st, 0)
decreasing_by
  obtain ⟨hmem, rfl⟩ := findTask_some _hf
  exact Prod.Lex.left _ _ (unvisited_insert _ (List.mem_map.mpr ⟨task, hmem, rfl⟩) _hnew)

/-- The loop of `dfs_cycle` over the dependencies of a task. -/
def dfsDeps (deps : List TaskId) (st : Dfs) : {r : Bool × Dfs // st.visited ⊆ r.2.visited} :=
  match deps with
  | [] => ⟨(false, st), Finset.Subset.refl _⟩
  | d :: rest =>
    match dfsCycle d st with
    | ⟨(true, st₁), hsub⟩ => ⟨(true, st₁), hsub⟩
    | ⟨(false, st₁), hsub⟩ =>
      match dfsDeps rest st₁ with
      | ⟨r, hsub'⟩ => ⟨r, hsub.trans hsub'⟩
termination_by (plan.unvisited st, deps.length)
decreasing_by
  · exact Prod.Lex.right _ (Nat.succ_pos _)
  · rcases Nat.lt_or_eq_of_le (unvisited_mono plan hsub) with hlt | heq
    · exact Prod.Lex.left _ _ hlt
    · rw [heq]
      exact Prod.Lex.right _ (Nat.lt_succ_self _)

end

theorem dfsCycle_onStack {t : TaskId} {st : Dfs} (h : t ∈ st.inStack) :
    (plan.dfsCycle t st).1 = (true, st) := by
  rw [dfsCycle, if_pos h]

theorem dfsCycle_visited {t : TaskId} {st : Dfs} (hstack : t ∉ st.inStack) (h : t ∈ st.visited) :
    (plan.dfsCycle t st).1 = (false, st) := by
  rw [dfsCycle, if_neg hstack, dif_pos h]

theorem dfsCycle_unknown {t : TaskId} {st : Dfs} (hstack : t ∉ st.inStack) (hnew : t ∉ st.visited)
    (hf : plan.findTask t = none) :
    (plan.dfsCycle t st).1 = (false, ⟨insert t st.visited, st.inStack⟩) := by
  rw [dfsCycle, if_neg hstack, dif_neg hnew]
  split
  · rw [Finset.erase_insert hstack]
  · rename_i hsome
    rw [hf] at hsome
    cases hsome

theorem dfsCycle_task {t : TaskId} {st : Dfs} {task : TaskNode} (hstack : t ∉ st.inStack)
    (hnew : t ∉ st.visited) (hf : plan.findTask t = some task) {b : Bool} {st₂ : Dfs}
    (hdeps : (plan.dfsDeps task.deps ⟨insert t st.visited, insert t st.inStack⟩).1 = (b, st₂)) :
    (plan.dfsCycle t st).1 = (b, if b then st₂ else ⟨st₂.visited, st₂.inStack.erase t⟩) := by
  rw [dfsCycle, if_neg hstack, dif_neg hnew]
  split
  · rename_i hnone
    rw [hf] at hnone
    cases hnone
  · rename_i task' hsome
    cases hf.symm.trans hsome
    split
    · rename_i st' hsub heq
      rw [heq] at hdeps
      cases hdeps
      rfl
    · rename_i st' hsub heq
      rw [heq] at hdeps
      cases hdeps
      rfl

theorem dfsDeps_cons {d : TaskId} {rest : List TaskId} {st : Dfs} {b : Bool} {st₁ : Dfs}
    (hd : (plan.dfsCycle d st).1 = (b, st₁)) :
    (plan.dfsDeps (d :: rest) st).1 = if b then (true, st₁) else (plan.dfsDeps rest st₁).1 := by
  rw [dfsDeps]
  split
  · rename_i st' hsub heq
    rw [heq] at hd
    cases hd
    rfl
  · rename_i st' hsub heq
    rw [heq] at hd
    cases hd
    rfl

def depsOf (t : TaskId) : List TaskId := ((plan.findTask t).map TaskNode.deps).getD []

theorem depsOf_findTask {plan : Plan} {t : TaskId} {task : TaskNode}
    (h : plan.findTask t = some task) : plan.depsOf t = task.deps := by
  rw [depsOf, h]
  rfl

theorem depsOf_unknown {plan : Plan} {t : TaskId} (h : plan.findTask t = none) :
    plan.depsOf t = [] := by
  rw [depsOf, h]
  rfl

theorem mem_ids_of_depsOf {plan : Plan} {t d : TaskId} (h : d ∈ plan.depsOf t) : t ∈ plan.ids := by
  cases hf : plan.findTask t with
  | none =>
    rw [depsOf_unknown hf] at h
    cases h
  | some task =>
    obtain ⟨hmem, rfl⟩ := findTask_some hf
    exact List.mem_map.mpr ⟨task, hmem, rfl⟩

theorem mem_depsOf {plan : Plan} (hu : plan.ids.Nodup) {t d : TaskId} :
    d ∈ plan.depsOf t ↔ plan.DependsOn t d := by
  constructor
  · intro h
    obtain ⟨task, hf⟩ := exists_findTask (mem_ids_of_depsOf h)
    rw [depsOf_findTask hf] at h
    obtain ⟨hmem, rfl⟩ := findTask_some hf
    exact ⟨task, hmem, rfl, h⟩
  · rintro ⟨task, htask, rfl, hd⟩
    rwa [depsOf_findTask (findTask_of_mem hu htask)]

/-- The result of a call as the answer of a walk over `ts`: a call that finds no cycle leaves
the stack as it was. -/
def Walked (ts : List TaskId) (st : Dfs) (r : Bool × Dfs) : Prop :=
  (r.1 = true → Sweep plan.depsOf st.inStack st.visited ts none) ∧
    (r.1 = false → r.2.inStack = st.inStack ∧
      Sweep plan.depsOf st.inStack st.visited ts (some r.2.visited))

theorem Walked.of_cycle {plan : Plan} {ts : List TaskId} {st st' : Dfs}
    (h : Sweep plan.depsOf st.inStack st.visited ts none) : plan.Walked ts st (true, st') :=
  ⟨fun _ => h, fun hf => absurd hf (by simp)⟩

theorem Walked.of_end {plan : Plan} {ts : List TaskId} {st st' : Dfs}
    (hstack : st'.inStack = st.inStack)
    (h : Sweep plan.depsOf st.inStack st.visited ts (some st'.visited)) :
    plan.Walked ts st (false, st') :=
  ⟨fun hf => absurd hf (by simp), fun _ => ⟨hstack, h⟩⟩

theorem walked_dfs (plan : Plan) :
    (∀ t st, plan.Walked [t] st (plan.dfsCycle t st).1) ∧
      (∀ deps st, plan.Walked deps st (plan.dfsDeps deps st).1) := by
  refine dfsCycle.mutual_induct plan
    (fun t st => plan.Walked [t] st (plan.dfsCycle t st).1)
    (fun deps st => plan.Walked deps st (plan.dfsDeps deps st).1)
    ?onStack ?visited ?unknown ?cycleBelow ?left ?nil ?stop ?cons
  case onStack =>
    intro t st hstack
    rw [dfsCycle_onStack plan hstack]
    exact .of_cycle (.onStack hstack)
  case visited =>
    intro t st hstack hvis
    rw [dfsCycle_visited plan hstack hvis]
    exact .of_end rfl (.seen hstack hvis .nil)
  case unknown =>
    intro t st hstack hnew hf
    rw [dfsCycle_unknown plan hstack hnew hf]
    refine .of_end rfl (.left hstack hnew ?_ .nil)
    -- a task that is not in the plan depends on nothing
    rw [depsOf_unknown hf]
    exact .nil
  case cycleBelow =>
    intro t st hstack hnew task hf st₂ hsub hdeps ih
    have hbelow := (depsOf_findTask hf).symm ▸ ih.1 (by rw [hdeps])
    rw [dfsCycle_task plan hstack hnew hf (congrArg Subtype.val hdeps)]
    exact .of_cycle (.cycleBelow hstack hnew hbelow)
  case left =>
    intro t st hstack hnew task hf st₂ hsub hdeps ih
    obtain ⟨hsame, hbelow⟩ := ih.2 (by rw [hdeps])
    rw [hdeps] at hsame hbelow
    rw [dfsCycle_task plan hstack hnew hf (congrArg Subtype.val hdeps)]
    refine .of_end ?_ (.left hstack hnew ((depsOf_findTask hf).symm ▸ hbelow) .nil)
    show st₂.inStack.erase t = st.inStack
    rw [hsame]
    exact Finset.erase_insert hstack
  case nil =>
    intro st
    rw [dfsDeps]
    exact .of_end rfl .nil
  case stop =>
    intro st d rest st₂ hsub hd ih
    rw [dfsDeps_cons plan (congrArg Subtype.val hd)]
    exact .of_cycle ((ih.1 (by rw [hd])).append_none rest)
  case cons =>
    intro st d rest st₂ hsub hd r hsub' hrest ih₁ ih₂
    obtain ⟨hsame, hfirst⟩ := ih₁.2 (by rw [hd])
    rw [hd] at hsame hfirst
    rw [dfsDeps_cons plan (congrArg Subtype.val hd)]
    show plan.Walked (d :: rest) st (plan.dfsDeps rest st₂).1
    constructor
    · intro hcycle
      exact hfirst.append (hsame ▸ ih₂.1 hcycle)
    · intro hend
      obtain ⟨hsame', hlast⟩ := ih₂.2 hend
      exact ⟨hsame'.trans hsame, hfirst.append (hsame ▸ hlast)⟩

/-- `has_cycle`: the search from every task in turn. -/
def hasCycle : Bool := (plan.dfsDeps plan.ids Dfs.empty).1.1

/-- The checks of `validate` on one task and the ones after it. -/
def validateTasks (seen : Finset TaskId) : List TaskNode → Except String Unit
  | [] => .ok ()
  | task :: rest =>
    if task.id ∈ seen then .error ("duplicate task id: " ++ task.id)
    else
      match task.deps.find? (fun dep => decide (dep ∉ plan.ids)) with
      | some dep => .error ("task " ++ task.id ++ " depends on unknown task " ++ dep)
      | none => validateTasks (insert task.id seen) rest

def validate : Except String Unit :=
  match plan.validateTasks ∅ plan.tasks with
  | .error e => .error e
  | .ok () => if plan.hasCycle then .error "task graph contains a cycle" else .ok ()

theorem hasCycle_eq_true (plan : Plan) :
    plan.hasCycle = true ↔ ¬ AcyclicRel (fun t d => d ∈ plan.depsOf t) := by
  have hwalk := (walked_dfs plan).2 plan.ids Dfs.empty
  cases h : plan.hasCycle with
  | true =>
    have hiff := (hwalk.1 h).acyclic_iff fun _ _ => mem_ids_of_depsOf
    simp [hiff]
  | false =>
    have hiff := (hwalk.2 h).2.acyclic_iff fun _ _ => mem_ids_of_depsOf
    simp [hiff]

theorem hasCycle_iff {plan : Plan} (hu : plan.ids.Nodup) :
    plan.hasCycle = true ↔ ¬ AcyclicRel plan.DependsOn := by
  have hrel : (fun t d => d ∈ plan.depsOf t) = plan.DependsOn := by
    funext t d
    exact propext (mem_depsOf hu)
  rw [hasCycle_eq_true, hrel]

theorem acyclic_of_hasCycle {plan : Plan} (hu : plan.ids.Nodup) (h : plan.hasCycle = false) :
    AcyclicRel plan.DependsOn := by
  by_contra hno
  rw [(hasCycle_iff hu).mpr hno] at h
  cases h

theorem validateTasks_ok {plan : Plan} (tasks : List TaskNode) (seen : Finset TaskId)
    (h : plan.validateTasks seen tasks = .ok ()) :
    (tasks.map TaskNode.id).Nodup ∧ (∀ task ∈ tasks, task.id ∉ seen) ∧
      ∀ task ∈ tasks, ∀ d ∈ task.deps, d ∈ plan.ids := by
  induction tasks generalizing seen with
  | nil => simp
  | cons task rest ih =>
    rw [validateTasks] at h
    split at h
    · cases h
    · rename_i hnew
      split at h
      · cases h
      · rename_i hknown
        obtain ⟨hnd, hseen, hclosed⟩ := ih (insert task.id seen) h
        refine ⟨List.nodup_cons.mpr ⟨fun hmem => ?_, hnd⟩, fun u hu => ?_, fun u hu d hd => ?_⟩
        · obtain ⟨u, hu, hid⟩ := List.mem_map.mp hmem
          exact hseen u hu (hid ▸ Finset.mem_insert_self _ _)
        · rcases List.mem_cons.mp hu with rfl | hu
          · exact hnew
          · exact fun hs => hseen u hu (Finset.mem_insert_of_mem hs)
        · rcases List.mem_cons.mp hu with rfl | hu
          · have hno := List.find?_eq_none.mp hknown d hd
            simpa using hno
          · exact hclosed u hu d hd

/-- The properties of a plan that `validate` accepts. -/
structure Valid (plan : Plan) : Prop where
  unique : plan.ids.Nodup
  closed : ∀ task ∈ plan.tasks, ∀ d ∈ task.deps, d ∈ plan.ids
  acyclic : AcyclicRel plan.DependsOn

theorem validate_ok {plan : Plan} (h : plan.validate = .ok ()) : plan.Valid := by
  rw [validate] at h
  split at h
  · cases h
  · rename_i hchecks
    split at h
    · cases h
    · rename_i hno
      obtain ⟨hnd, -, hclosed⟩ := validateTasks_ok plan.tasks ∅ hchecks
      exact ⟨hnd, hclosed, acyclic_of_hasCycle hnd (by simpa using hno)⟩

theorem validateTasks_of_closed {plan : Plan} (tasks : List TaskNode) (seen : Finset TaskId)
    (hu : (tasks.map TaskNode.id).Nodup) (hseen : ∀ task ∈ tasks, task.id ∉ seen)
    (hclosed : ∀ task ∈ tasks, ∀ d ∈ task.deps, d ∈ plan.ids) :
    plan.validateTasks seen tasks = .ok () := by
  induction tasks generalizing seen with
  | nil => rfl
  | cons task rest ih =>
    obtain ⟨hnew, hrest⟩ := List.nodup_cons.mp hu
    have hknown : task.deps.find? (fun dep => decide (dep ∉ plan.ids)) = none := by
      refine List.find?_eq_none.mpr fun d hd => ?_
      simpa using hclosed task List.mem_cons_self d hd
    rw [validateTasks, if_neg (hseen task List.mem_cons_self), hknown]
    refine ih _ hrest (fun u hu' => ?_) fun u hu' => hclosed u (List.mem_cons_of_mem _ hu')
    rw [Finset.mem_insert, not_or]
    exact ⟨fun hid => hnew (hid ▸ List.mem_map_of_mem hu'), hseen u (List.mem_cons_of_mem _ hu')⟩

theorem validate_iff {plan : Plan} : plan.validate = .ok () ↔ plan.Valid := by
  refine ⟨validate_ok, fun hv => ?_⟩
  have hno : plan.hasCycle ≠ true := fun hc => (hasCycle_iff hv.unique).mp hc hv.acyclic
  rw [validate, validateTasks_of_closed plan.tasks ∅ hv.unique (fun _ _ => by simp) hv.closed]
  exact if_neg hno

end Plan

end Mowis.Orchestration
