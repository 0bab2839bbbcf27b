import Mowis.Lib.CycleSearch
import Mowis.Lib.HashMap

/-!
# `DependencyGraphBuilder`: the checks

`agentd/src/dependency_graph.rs`: tasks are collected by id, and `build` first runs the
depth-first search `check_cycles` and then `validate_dependencies`.  A call of the search is
made for a task that is not visited; it returns with a visited set that has only grown, which
is part of its type because the recursion depends on it.
-/

namespace Mowis.Staging

open Mowis.Lib

inductive GraphError where
  | cyclicDependency (message : String)
  | missingDependency (message : String)
  | invalidTask (message : String)
  deriving DecidableEq, Repr

structure TaskNode where
  taskId : String
  dependsOn : List String
  teamType : String
  deriving DecidableEq, Repr

/-- The tasks added so far; every task is stored under its own id. -/
structure DependencyGraphBuilder where
  tasks : HashMap String TaskNode
  keyed : ∀ t node, tasks.lookup t = some node → node.taskId = t

/-- `visited` and `rec_stack` of the search. -/
structure Marks where
  visited : Finset String
  recStack : Finset String
  deriving DecidableEq

def Marks.empty : Marks := ⟨∅, ∅⟩

namespace DependencyGraphBuilder

/-- `DependencyGraphBuilder::new`. -/
def new : DependencyGraphBuilder := ⟨∅, fun _ _ h => by cases h⟩

def addTask (builder : DependencyGraphBuilder) (taskId teamType : String)
    (dependencies : List String) : DependencyGraphBuilder where
  tasks := builder.tasks.insert taskId ⟨taskId, dependencies, teamType⟩
  keyed := by
    intro t node h
    rw [HashMap.lookup_insert_eq_ite] at h
    split at h
    · rename_i ht
      cases h
      exact ht.symm
    · exact builder.keyed t node h

variable (builder : DependencyGraphBuilder)

/-- `self.tasks.keys()` -/
def keys (order : IterOrder String) : List String := order.arrange builder.tasks.keys

/-- `self.tasks.values()` -/
def values (order : IterOrder String) : List TaskNode :=
  (builder.keys order).filterMap builder.tasks.lookup

mutual

/-- `dfs_cycle_check` -/
def dfsCycleCheck (taskId : String) (st : Marks) (_hnew : taskId ∉ st.visited) :
    {r : Except GraphError Marks // ∀ st', r = .ok st' → st.visited ⊆ st'.visited} :=
  match _hf : builder.tasks.lookup taskId with
  | none =>
    ⟨.ok ⟨insert taskId st.visited, (insert taskId st.recStack).erase taskId⟩, by
      rintro _ ⟨⟩
      exact Finset.subset_insert _ _⟩
  | some task =>
    match dfsDependencies taskId task.dependsOn
      ⟨insert taskId st.visited, insert taskId st.recStack⟩ with
    | ⟨.error e, _⟩ => ⟨.error e, by rintro _ ⟨⟩⟩
    | ⟨.ok st₂, hsub⟩ =>
      ⟨.ok ⟨st₂.visited, st₂.recStack.erase taskId⟩, by
        rintro _ ⟨⟩
        exact (Finset.subset_insert _ _).trans (hsub st₂ rfl)⟩
termination_by (unvisited builder.tasks.keys st.visited, 0)
decreasing_by
  have hmem : taskId ∈ builder.tasks := AList.lookup_isSome.mp (by rw [_hf]; rfl)
  exact Prod.Lex.left _ _ (unvisited_insert (AList.mem_keys.mp hmem) _hnew)

/-- The loop of `dfs_cycle_check` over the dependencies of a task. -/
def dfsDependencies (taskId : String) (dependsOn : List String) (st : Marks) :
    {r : Except GraphError Marks // ∀ st', r = .ok st' → st.visited ⊆ st'.visited} :=
  match dependsOn with
  | [] => ⟨.ok st, by rintro _ ⟨⟩; exact Finset.Subset.refl _⟩
  | dep :: rest =>
    if hnew : dep ∉ st.visited then
      match dfsCycleCheck dep st hnew with
      | ⟨.error e, _⟩ => ⟨.error e, by rintro _ ⟨⟩⟩
      | ⟨.ok st₁, hsub⟩ =>
        match dfsDependencies taskId rest st₁ with
        | ⟨r, hsub'⟩ => ⟨r, fun st' h => (hsub st₁ rfl).trans (hsub' st' h)⟩
    else if dep ∈ st.recStack then
      ⟨.error (.cyclicDependency ("Cycle detected: " ++ taskId ++ " -> " ++ dep)),
        by rintro _ ⟨⟩⟩
    else dfsDependencies taskId rest st
termination_by (unvisited builder.tasks.keys st.visited, dependsOn.length)
decreasing_by
  · exact Prod.Lex.right _ (Nat.succ_pos _)
  · rcases Nat.lt_or_eq_of_le (unvisited_mono builder.tasks.keys (hsub st₁ rfl)) with hlt | heq
    · exact Prod.Lex.left _ _ hlt
    · rw [heq]
      exact Prod.Lex.right _ (Nat.lt_succ_self _)
  · exact Prod.Lex.right _ (Nat.lt_succ_self _)

end

/-- The loop of `check_cycles` over the ids. -/
def checkKeys : List String → Marks → Except GraphError Marks
  | [], st => .ok st
  | taskId :: rest, st =>
    if hnew : taskId ∉ st.visited then
      match (builder.dfsCycleCheck taskId st hnew).1 with
      | .error e => .error e
      | .ok st₁ => checkKeys rest st₁
    else checkKeys rest st

def checkCycles (order : IterOrder String) : Except GraphError Unit :=
  match builder.checkKeys (builder.keys order) Marks.empty with
  | .error e => .error e
  | .ok _ => .ok ()

/-- The loops of `validate_dependencies`. -/
def validateTasks : List TaskNode → Except GraphError Unit
  | [] => .ok ()
  | task :: rest =>
    match task.dependsOn.find? (fun dep => decide (dep ∉ builder.tasks)) with
    | some dep =>
      .error (.missingDependency ("Task " ++ task.taskId ++ " depends on missing task " ++ dep))
    | none => validateTasks rest

def validateDependencies (order : IterOrder String) : Except GraphError Unit :=
  builder.validateTasks (builder.values order)

variable {builder}

theorem dfsCycleCheck_unknown {t : String} {st : Marks} (hnew : t ∉ st.visited)
    (hf : builder.tasks.lookup t = none) :
    (builder.dfsCycleCheck t st hnew).1 =
      .ok ⟨insert t st.visited, (insert t st.recStack).erase t⟩ := by
  rw [dfsCycleCheck]
  split
  · rfl
  · rename_i hsome
    rw [hf] at hsome
    cases hsome

theorem dfsCycleCheck_task {t : String} {st : Marks} (hnew : t ∉ st.visited) {task : TaskNode}
    (hf : builder.tasks.lookup t = some task) {r : Except GraphError Marks}
    (hdeps : (builder.dfsDependencies t task.dependsOn
      ⟨insert t st.visited, insert t st.recStack⟩).1 = r) :
    (builder.dfsCycleCheck t st hnew).1 =
      r.map fun st₂ => ⟨st₂.visited, st₂.recStack.erase t⟩ := by
  rw [dfsCycleCheck]
  split
  · rename_i hnone
    rw [hf] at hnone
    cases hnone
  · rename_i task' hsome
    cases hf.symm.trans hsome
    split
    · rename_i e hsub heq
      rw [heq] at hdeps
      subst hdeps
      rfl
    · rename_i st' hsub heq
      rw [heq] at hdeps
      subst hdeps
      rfl

theorem dfsDependencies_new {t d : String} {rest : List String} {st : Marks}
    (hnew : d ∉ st.visited) {r : Except GraphError Marks}
    (hd : (builder.dfsCycleCheck d st hnew).1 = r) :
    (builder.dfsDependencies t (d :: rest) st).1 =
      r.bind fun st₁ => (builder.dfsDependencies t rest st₁).1 := by
  rw [dfsDependencies, dif_pos hnew]
  split
  · rename_i e hsub heq
    rw [heq] at hd
    subst hd
    rfl
  · rename_i st' hsub heq
    rw [heq] at hd
    subst hd
    rfl

theorem dfsDependencies_onStack {t d : String} {rest : List String} {st : Marks}
    (hvis : ¬ d ∉ st.visited) (hstack : d ∈ st.recStack) :
    (builder.dfsDependencies t (d :: rest) st).1 =
      .error (.cyclicDependency ("Cycle detected: " ++ t ++ " -> " ++ d)) := by
  rw [dfsDependencies, dif_neg hvis, if_pos hstack]

theorem dfsDependencies_seen {t d : String} {rest : List String} {st : Marks}
    (hvis : ¬ d ∉ st.visited) (hstack : d ∉ st.recStack) :
    (builder.dfsDependencies t (d :: rest) st).1 = (builder.dfsDependencies t rest st).1 := by
  rw [dfsDependencies, dif_neg hvis, if_neg hstack]

variable (builder)

def depsOf (t : String) : List String := ((builder.tasks.lookup t).map TaskNode.dependsOn).getD []

variable {builder}

theorem depsOf_lookup {t : String} {task : TaskNode} (h : builder.tasks.lookup t = some task) :
    builder.depsOf t = task.dependsOn := by
  rw [depsOf, h]
  rfl

theorem mem_keys_of_depsOf {t d : String} (h : d ∈ builder.depsOf t) : t ∈ builder.tasks.keys := by
  rw [depsOf] at h
  cases hf : builder.tasks.lookup t with
  | none =>
    rw [hf] at h
    cases h
  | some task => exact AList.mem_keys.mp (AList.lookup_isSome.mp (by rw [hf]; rfl))

theorem exists_lookup {t : String} (h : t ∈ builder.tasks.keys) :
    ∃ task, builder.tasks.lookup t = some task :=
  Option.isSome_iff_exists.mp (AList.lookup_isSome.mpr (AList.mem_keys.mpr h))

variable (builder)

/-- The result of a call as the answer of a walk over `ts`: a call that finds no cycle leaves
the stack as it was. -/
def Traced (ts : List String) (st : Marks) (r : Except GraphError Marks) : Prop :=
  (∀ e, r = .error e → Sweep builder.depsOf st.recStack st.visited ts none) ∧
    ∀ st', r = .ok st' → st'.recStack = st.recStack ∧
      Sweep builder.depsOf st.recStack st.visited ts (some st'.visited)

variable {builder}

theorem Traced.of_error {ts : List String} {st : Marks} {e : GraphError}
    (h : Sweep builder.depsOf st.recStack st.visited ts none) : builder.Traced ts st (.error e) :=
  ⟨fun _ _ => h, fun _ hok => by cases hok⟩

theorem Traced.of_ok {ts : List String} {st st' : Marks} (hstack : st'.recStack = st.recStack)
    (h : Sweep builder.depsOf st.recStack st.visited ts (some st'.visited)) :
    builder.Traced ts st (.ok st') := by
  refine ⟨fun _ herr => (by cases herr), fun st₂ hok => ?_⟩
  cases hok
  exact ⟨hstack, h⟩

theorem Traced.bind {t : String} {rest : List String} {st : Marks} {r : Except GraphError Marks}
    {next : Marks → Except GraphError Marks} (hfirst : builder.Traced [t] st r)
    (hrest : ∀ st₁, r = .ok st₁ → builder.Traced rest st₁ (next st₁)) :
    builder.Traced (t :: rest) st (r.bind next) := by
  cases r with
  | error e => exact .of_error ((hfirst.1 e rfl).append_none rest)
  | ok st₁ =>
    obtain ⟨hsame, hwalk⟩ := hfirst.2 st₁ rfl
    obtain ⟨herr, hok⟩ := hrest st₁ rfl
    refine ⟨fun e he => hwalk.append (hsame ▸ herr e he), fun st' hst' => ?_⟩
    obtain ⟨hsame', hwalk'⟩ := hok st' hst'
    exact ⟨hsame'.trans hsame, hwalk.append (hsame ▸ hwalk')⟩

theorem traced_dfs (builder : DependencyGraphBuilder) :
    (∀ t st (hnew : t ∉ st.visited), st.recStack ⊆ st.visited →
      builder.Traced [t] st (builder.dfsCycleCheck t st hnew).1) ∧
    (∀ t deps st, st.recStack ⊆ st.visited →
      builder.Traced deps st (builder.dfsDependencies t deps st).1) := by
  have henter : ∀ (t : String) (st : Marks), st.recStack ⊆ st.visited →
      insert t st.recStack ⊆ insert t st.visited := fun t st h => Finset.insert_subset_insert t h
  refine dfsCycleCheck.mutual_induct builder
    (fun t st hnew => st.recStack ⊆ st.visited →
      builder.Traced [t] st (builder.dfsCycleCheck t st hnew).1)
    (fun t deps st => st.recStack ⊆ st.visited →
      builder.Traced deps st (builder.dfsDependencies t deps st).1)
    ?unknown ?cycleBelow ?left ?nil ?stop ?entered ?onStack ?seen
  case unknown =>
    intro t st hnew hf hsub
    have hstack : t ∉ st.recStack := fun h => hnew (hsub h)
    have hnone : builder.depsOf t = [] := by
      rw [depsOf, hf]
      rfl
    rw [dfsCycleCheck_unknown hnew hf]
    exact .of_ok (Finset.erase_insert hstack) (.left hstack hnew (hnone ▸ .nil) .nil)
  case cycleBelow =>
    intro t st hnew task hf e hno hdeps ih hsub
    have hstack : t ∉ st.recStack := fun h => hnew (hsub h)
    have hbelow := (ih (henter t st hsub)).1 e (by rw [hdeps])
    rw [dfsCycleCheck_task hnew hf (congrArg Subtype.val hdeps)]
    exact .of_error (.cycleBelow hstack hnew (depsOf_lookup hf ▸ hbelow))
  case left =>
    intro t st hnew task hf st₂ hgrow hdeps ih hsub
    have hstack : t ∉ st.recStack := fun h => hnew (hsub h)
    obtain ⟨hsame, hbelow⟩ := (ih (henter t st hsub)).2 st₂ (by rw [hdeps])
    rw [dfsCycleCheck_task hnew hf (congrArg Subtype.val hdeps)]
    refine .of_ok ?_ (.left hstack hnew (depsOf_lookup hf ▸ hbelow) .nil)
    show st₂.recStack.erase t = st.recStack
    rw [hsame]
    exact Finset.erase_insert hstack
  case nil =>
    intro t st _
    rw [dfsDependencies]
    exact .of_ok rfl .nil
  case stop =>
    intro t st d rest hnew e hno hd ih hsub
    have hfirst := ih hsub
    rw [hd] at hfirst
    rw [dfsDependencies_new hnew (congrArg Subtype.val hd)]
    exact hfirst.bind fun _ h => by cases h
  case entered =>
    intro t st d rest hnew st₁ hgrow hd r hgrow' hrest ihfirst ihrest hsub
    have hfirst := ihfirst hsub
    have hsame := (hfirst.2 st₁ (by rw [hd])).1
    have hsub₁ : st₁.recStack ⊆ st₁.visited := by
      rw [hsame]
      exact hsub.trans (hgrow st₁ rfl)
    rw [hd] at hfirst
    rw [dfsDependencies_new hnew (congrArg Subtype.val hd)]
    refine hfirst.bind fun st' h => ?_
    cases h
    exact ihrest hsub₁
  case onStack =>
    intro t st d rest hvis hstack _
    rw [dfsDependencies_onStack hvis hstack]
    exact .of_error (.onStack hstack)
  case seen =>
    intro t st d rest hvis hstack ih hsub
    rw [dfsDependencies_seen hvis hstack]
    obtain ⟨herr, hok⟩ := ih hsub
    refine ⟨fun e he => .seen hstack (not_not.mp hvis) (herr e he), fun st' hst' => ?_⟩
    obtain ⟨hsame, hwalk⟩ := hok st' hst'
    exact ⟨hsame, .seen hstack (not_not.mp hvis) hwalk⟩

theorem traced_checkKeys (ts : List String) (st : Marks) (hempty : st.recStack = ∅) :
    builder.Traced ts st (builder.checkKeys ts st) := by
  induction ts generalizing st with
  | nil => exact .of_ok rfl .nil
  | cons t rest ih =>
    by_cases hnew : t ∉ st.visited
    · have hfirst := (traced_dfs builder).1 t st hnew (by simp [hempty])
      have hloop : builder.checkKeys (t :: rest) st =
          (builder.dfsCycleCheck t st hnew).1.bind (builder.checkKeys rest) := by
        rw [checkKeys, dif_pos hnew]
        cases (builder.dfsCycleCheck t st hnew).1 <;> rfl
      rw [hloop]
      exact hfirst.bind fun st₁ hst₁ => ih st₁ ((hfirst.2 st₁ hst₁).1.trans hempty)
    · have hstack : t ∉ st.recStack := by simp [hempty]
      rw [checkKeys, dif_neg hnew]
      obtain ⟨herr, hok⟩ := ih st hempty
      refine ⟨fun e he => .seen hstack (not_not.mp hnew) (herr e he), fun st' hst' => ?_⟩
      obtain ⟨hsame, hwalk⟩ := hok st' hst'
      exact ⟨hsame, .seen hstack (not_not.mp hnew) hwalk⟩

/-- `d` is a dependency of the task stored under `t`. -/
def DependsOn (builder : DependencyGraphBuilder) (t d : String) : Prop := d ∈ builder.depsOf t

theorem checkCycles_ok_iff (order : IterOrder String) :
    builder.checkCycles order = .ok () ↔ AcyclicRel builder.DependsOn := by
  have htraced : builder.Traced (builder.keys order) Marks.empty
      (builder.checkKeys (builder.keys order) Marks.empty) := traced_checkKeys _ _ rfl
  have hall : ∀ t d, d ∈ builder.depsOf t → t ∈ builder.keys order := fun t d h =>
    (order.mem_arrange _ t).mpr (mem_keys_of_depsOf h)
  rw [checkCycles]
  cases h : builder.checkKeys (builder.keys order) Marks.empty with
  | error e =>
    have hno : ¬ AcyclicRel builder.DependsOn := fun hac =>
      ((htraced.1 e h).acyclic_iff hall).mp hac rfl
    simpa using hno
  | ok st =>
    have hac : AcyclicRel builder.DependsOn :=
      ((htraced.2 st h).2.acyclic_iff hall).mpr (Option.some_ne_none _)
    simpa using hac

theorem validateTasks_ok_iff (tasks : List TaskNode) :
    builder.validateTasks tasks = .ok () ↔
      ∀ task ∈ tasks, ∀ d ∈ task.dependsOn, d ∈ builder.tasks := by
  induction tasks with
  | nil => simp [validateTasks]
  | cons task rest ih =>
    rw [validateTasks]
    cases hfind : task.dependsOn.find? (fun dep => decide (dep ∉ builder.tasks)) with
    | some d =>
      have hno : d ∉ builder.tasks := by simpa using List.find?_some hfind
      have hmem := List.mem_of_find?_eq_some hfind
      refine ⟨fun h => (by cases h), fun h => ?_⟩
      exact absurd (h task List.mem_cons_self d hmem) hno
    | none =>
      have hknown : ∀ d ∈ task.dependsOn, d ∈ builder.tasks := fun d hd => by
        simpa using List.find?_eq_none.mp hfind d hd
      simp only [List.forall_mem_cons, ih]
      exact ⟨fun h => ⟨hknown, h⟩, fun h => h.2⟩

theorem validateDependencies_ok_iff (order : IterOrder String) :
    builder.validateDependencies order = .ok () ↔
      ∀ t d, builder.DependsOn t d → d ∈ builder.tasks.keys := by
  rw [validateDependencies, validateTasks_ok_iff]
  constructor
  · intro h t d htd
    have hkey := mem_keys_of_depsOf htd
    obtain ⟨task, hf⟩ := exists_lookup hkey
    have hval : task ∈ builder.values order :=
      List.mem_filterMap.mpr ⟨t, (order.mem_arrange _ t).mpr hkey, hf⟩
    exact AList.mem_keys.mp (h task hval d (depsOf_lookup hf ▸ htd))
  · intro h task hval d hd
    obtain ⟨t, -, hf⟩ := List.mem_filterMap.mp hval
    exact AList.mem_keys.mpr (h t d (by rw [DependsOn, depsOf_lookup hf]; exact hd))

end DependencyGraphBuilder

end Mowis.Staging
